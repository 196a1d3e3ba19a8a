import Straightline.Grammar.Expression
import Straightline.Proofs.Steps

/-!
# Single steps of the reader

The reader of expressions climbs: it reads a primary expression and then takes in operators as long as
they are strong enough.  Each lemma here is one step of it, in any dialect; what a step leaves to the
others is a hypothesis.  Proofs about reading put such steps together and do not open the reader.
-/

namespace Straightline.Grammar

variable {ε : Type} {d : Dialect ε} {n least : Nat} {t : Token} {toks rest : List Token} {x : ε}

/-! ## Tokens -/

theorem peek_cons (t : Token) (rest : List Token) : peek (t :: rest) = t := rfl

theorem expect_eq_ok {kind : Token.Kind} {what : Expectation} :
    expect kind what toks = .ok (t, rest) ↔ toks = t :: rest ∧ t.kind = kind := by
  cases toks with
  | nil => simp [expect]
  | cons u us =>
    by_cases h : u.kind = kind
    · rw [expect, if_pos h, Except.ok.injEq, Prod.mk.injEq, List.cons.injEq]
      constructor
      · rintro ⟨rfl, rfl⟩
        exact ⟨⟨rfl, rfl⟩, h⟩
      · exact fun h => h.1
    · rw [expect, if_neg h]
      constructor
      · intro h
        cases h
      · rintro ⟨heq, ht⟩
        exact absurd ((List.cons.inj heq).1 ▸ ht) h

theorem expect_of_kind {kind : Token.Kind} (what : Expectation) (h : t.kind = kind) :
    expect kind what (t :: rest) = .ok (t, rest) :=
  expect_eq_ok.mpr ⟨rfl, h⟩

theorem infixOp?_of_kind {kind : Token.Kind} (h : t.kind = kind) (hop : kind ≠ .op)
    (hident : kind ≠ .ident) : infixOp? t = none := by
  simp [infixOp?, h, hop, hident]

theorem prefixOp?_of_kind (hop : t.kind ≠ .op) (hident : t.kind ≠ .ident) : prefixOp? t = none := by
  simp [prefixOp?, hop, hident]

theorem kind_ne_number_of_prefixOp? {op : PrefixOp} (h : prefixOp? t = some op) : t.kind ≠ .number := by
  intro hkind
  simp [prefixOp?, hkind] at h

/-! ## Primary expressions and prefix operators -/

theorem unary_of_primary (h : prefixOp? t = none) :
    unary d (n + 1) (t :: rest) = primary d n (t :: rest) := by
  rw [unary, peek_cons, h]

theorem unary_minus_numeral {m : Token} {v : Number} (hm : prefixOp? m = some .neg)
    (ht : t.kind = .number) (hv : numeral true t = .ok v) :
    unary d (n + 1) (m :: t :: rest) = .ok (d.literal v, rest) := by
  rw [unary, peek_cons, hm]
  simp only [List.tail_cons, peek_cons, ht, true_and, if_true, hv]
  rfl

theorem unary_of_prefixOp {op : PrefixOp} (ht : prefixOp? t = some op)
    (hnumeral : op = .neg → (peek toks).kind ≠ .number) (h : unary d n toks = .ok (x, rest)) :
    unary d (n + 1) (t :: toks) = .ok (d.unary op x, rest) := by
  have hcond : ¬ (op = .neg ∧ (peek (t :: toks).tail).kind = .number) :=
    fun hand => hnumeral hand.1 hand.2
  rw [unary, peek_cons, ht]
  simp only [hcond, if_false]
  rw [List.tail_cons, h]
  rfl

theorem primary_numeral {v : Number} (ht : t.kind = .number) (hv : numeral false t = .ok v) :
    primary d (n + 1) (t :: rest) = .ok (d.literal v, rest) := by
  simp only [primary, ht, hv]
  rfl

/-- A variable, in a language without calls. -/
theorem primary_ident (hcall : d.call? = none) (ht : t.kind = .ident) (hreserved : t.text ∉ d.reserved) :
    primary d (n + 1) (t :: rest) = .ok (d.ident t.text, rest) := by
  simp only [primary, ht, hreserved, if_false, hcall]

/-- A variable, in a language with calls. -/
theorem primary_ident_of_ne {call : String → List ε → ε} (hcall : d.call? = some call)
    (ht : t.kind = .ident) (hreserved : t.text ∉ d.reserved) (hopen : (peek rest).kind ≠ .lparen) :
    primary d (n + 1) (t :: rest) = .ok (d.ident t.text, rest) := by
  simp only [primary, ht, hreserved, if_false, hcall, hopen]

theorem primary_call {call : String → List ε → ε} {o : Token} {args : List ε}
    (hcall : d.call? = some call) (ht : t.kind = .ident) (hreserved : t.text ∉ d.reserved)
    (ho : o.kind = .lparen) (h : arguments d n .rparen .closeParen toks = .ok (args, rest)) :
    primary d (n + 1) (t :: o :: toks) = .ok (call t.text args, rest) := by
  simp only [primary, ht, hreserved, if_false, hcall, peek_cons, ho, if_true, List.tail_cons, h]
  rfl

theorem primary_array {array : List ε → ε} {items : List ε} (harray : d.array? = some array)
    (ht : t.kind = .lbracket) (h : arguments d n .rbracket .closeBracket toks = .ok (items, rest)) :
    primary d (n + 1) (t :: toks) = .ok (array items, rest) := by
  simp only [primary, ht, harray, h]
  rfl

theorem primary_parenthesized {o c : Token} (ho : o.kind = .lparen) (hc : c.kind = .rparen)
    (h : expression d n 0 (toks ++ c :: rest) = .ok (x, c :: rest)) :
    primary d (n + 1) (o :: (toks ++ c :: rest)) = .ok (x, rest) := by
  simp only [primary, ho, h, bind, Except.bind, expect_of_kind _ hc]
  rfl

/-! ## Arguments -/

theorem arguments_nil (what : Expectation) :
    arguments d (n + 1) t.kind what (t :: rest) = .ok ([], rest) := by
  rw [arguments, peek_cons, if_pos rfl, List.tail_cons]

theorem arguments_of_ne {close : Token.Kind} (what : Expectation) (h : (peek toks).kind ≠ close) :
    arguments d (n + 1) close what toks = argumentsFrom d n close what toks := by
  rw [arguments, if_neg h]

theorem argumentsFrom_last {c : Token} {what : Expectation} (hc : c.kind ≠ .comma)
    (h : expression d n 0 toks = .ok (x, c :: rest)) :
    argumentsFrom d (n + 1) c.kind what toks = .ok ([x], rest) := by
  simp only [argumentsFrom, h, bind, Except.bind, peek_cons, hc, if_false, expect_of_kind what rfl]
  rfl

theorem argumentsFrom_more {c : Token} {close : Token.Kind} {what : Expectation} {more : List Token}
    {xs : List ε} (hc : c.kind = .comma) (h : expression d n 0 toks = .ok (x, c :: more))
    (hmore : argumentsFrom d n close what more = .ok (xs, rest)) :
    argumentsFrom d (n + 1) close what toks = .ok (x :: xs, rest) := by
  simp only [argumentsFrom, h, bind, Except.bind, peek_cons, hc, if_true, List.tail_cons, hmore]
  rfl

/-! ## Operators -/

theorem expression_of_unary (h : unary d n toks = .ok (x, rest)) :
    expression d (n + 1) least toks = climb d n least x rest := by
  rw [expression, h]
  rfl

/-- **A row of tokens that a row of operators stops at**: none of strength `least` or more follows. -/
def Stops (d : Dialect ε) (least : Nat) (rest : List Token) : Prop :=
  ∀ op, infixOp? (peek rest) = some op → d.strength op < least

theorem stops_of_none (h : infixOp? (peek rest) = none) : Stops d least rest := by
  intro op hop
  rw [h] at hop
  cases hop

theorem stops_operator {op : InfixOp} (ht : infixOp? t = some op) (h : d.strength op < least) :
    Stops d least (t :: rest) := by
  intro op' hop'
  obtain rfl : op = op' := Option.some.inj (ht.symm.trans hop')
  exact h

theorem Stops.mono {more : Nat} (h : Stops d least rest) (hle : least ≤ more) : Stops d more rest :=
  fun op hop => Nat.lt_of_lt_of_le (h op hop) hle

theorem climb_of_stops (h : Stops d least rest) :
    climb d (n + 1) least x rest = .ok (x, rest) := by
  cases rest with
  | nil => rw [climb]
  | cons t rest =>
    rw [climb]
    split
    · rfl
    · rename_i op hop
      rw [if_pos (h op hop)]

theorem climb_of_expression {lhs : ε} {op : InfixOp} (ht : infixOp? t = some op)
    (hle : least ≤ d.strength op) (h : expression d n (rightStrength d op) toks = .ok (x, rest)) :
    climb d (n + 1) least lhs (t :: toks) = climb d n least (d.binary lhs op x) rest := by
  rw [climb, ht]
  simp only [Nat.not_lt.mpr hle, if_false, h]
  rfl

end Straightline.Grammar
