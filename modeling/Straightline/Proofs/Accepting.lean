import Straightline.Proofs.Parsing

/-!
# What is derived is read

The reader of source programs accepts whatever the grammar allows.
-/

namespace Straightline.Source

open Grammar Lexer

variable {k k' : Tier} {e l r : Expr} {es : List Expr} {op : InfixOp} {t c : Token}
  {toks ls rs rest : List Token} {ph : Phrase} {n least : Nat}

/-! ## Where expressions begin and end -/

/-- A row of tokens that begins with something other than a closing bracket. -/
def Begins (toks : List Token) : Prop :=
  ∃ t rest, toks = t :: rest ∧ t.kind ≠ .rparen ∧ t.kind ≠ .rbracket

theorem Begins.append (h : Begins toks) (rest : List Token) : Begins (toks ++ rest) := by
  obtain ⟨t, us, rfl, ht⟩ := h
  exact ⟨t, us ++ rest, rfl, ht⟩

theorem begins_of_kind {kind : Token.Kind} (ht : t.kind = kind) (hparen : kind ≠ .rparen)
    (hbracket : kind ≠ .rbracket) : Begins (t :: toks) :=
  ⟨t, toks, rfl, ht ▸ hparen, ht ▸ hbracket⟩

/-- Arguments may be left out; all else has a first token. -/
def Phrase.Begun : Phrase → List Token → Prop
  | .arguments _, _ => True
  | _, toks => Begins toks

theorem Derives.begun (h : Derives ph toks) : ph.Begun toks := by
  induction h with
  | operand _ _ ih | base _ ih | plain _ ih | single _ ih => exact ih
  | fromLeft _ _ _ _ _ ih _ | fromRight _ _ _ ih _ | more _ _ _ ih _ => exact ih.append _
  | signed ht | applied ht =>
    rcases ht.kind_eq with hkind | hkind
    · exact begins_of_kind hkind (by decide) (by decide)
    · exact begins_of_kind hkind (by decide) (by decide)
  | numeral ht => exact begins_of_kind ht (by decide) (by decide)
  | named ht | call ht => exact begins_of_kind ht.1 (by decide) (by decide)
  | fold ht => exact begins_of_kind ht (by decide) (by decide)
  | array ho | group ho => exact begins_of_kind ho (by decide) (by decide)
  | empty | nonempty => trivial

/-- A row of tokens that cannot go on an expression. -/
def Ends (rest : List Token) : Prop := infixOp? (peek rest) = none ∧ (peek rest).kind ≠ .lparen

/-- A closing bracket. -/
def Closes (t : Token) : Prop := t.kind = .rparen ∨ t.kind = .rbracket

theorem ends_of_kind {kind : Token.Kind} (ht : t.kind = kind) (hop : kind ≠ .op) (hident : kind ≠ .ident)
    (hopen : kind ≠ .lparen) : Ends (t :: rest) :=
  ⟨infixOp?_of_kind ht hop hident, ht ▸ hopen⟩

theorem Closes.ends (h : Closes t) (rest : List Token) : Ends (t :: rest) := by
  rcases h with h | h <;> exact ends_of_kind h (by decide) (by decide) (by decide)

theorem Closes.ne_comma (h : Closes t) : t.kind ≠ .comma := by
  rcases h with h | h <;> simp [h]

/-! ## Expressions -/

/-- The strength from which on operators are taken by the last operand of a tier's expressions. -/
def Tier.reach (k : Tier) : Nat := if k = .power then k.height else k.height + 1

/-- **What the reader makes of the tokens of a phrase**, with enough depth left for each of them. -/
def Reads : Phrase → List Token → Prop
  | .tier k e, toks => ∀ n least rest, least ≤ k.height → Stops dialect k.reach rest →
      (peek rest).kind ≠ .lparen → 6 * toks.length < n →
        ∃ m, n ≤ m + 6 * toks.length + 1 ∧
          expression dialect n least (toks ++ rest) = climb dialect m least e rest
  | .unary e, toks => ∀ n rest, (peek rest).kind ≠ .lparen → 6 * toks.length ≤ n →
      unary dialect n (toks ++ rest) = .ok (e, rest)
  | .primary e, toks => ∀ n rest, (peek rest).kind ≠ .lparen → 6 * toks.length ≤ n + 1 →
      primary dialect n (toks ++ rest) = .ok (e, rest)
  | .row es, toks => ∀ n what c rest, Closes c → 6 * toks.length + 3 ≤ n →
      argumentsFrom dialect n c.kind what (toks ++ c :: rest) = .ok (es, rest)
  | .arguments es, toks => ∀ n what c rest, Closes c → 6 * toks.length + 4 ≤ n →
      arguments dialect n c.kind what (toks ++ c :: rest) = .ok (es, rest)

/-- An expression that is followed by nothing of its own. -/
theorem Reads.whole (h : Reads (.tier k e) toks) (hle : least ≤ k.height) (hends : Ends rest)
    (hn : 6 * toks.length + 2 ≤ n) : expression dialect n least (toks ++ rest) = .ok (e, rest) := by
  obtain ⟨m, hm, hread⟩ := h n least rest hle (stops_of_none hends.1) hends.2 (by omega)
  obtain ⟨m, rfl⟩ : ∃ m', m = m' + 1 := ⟨m - 1, by omega⟩
  rw [hread]
  exact climb_of_stops (stops_of_none hends.1)

theorem Tier.reach_le (h : k.operands? = some k') : k.reach = k'.height ∧ k.reach ≤ k'.reach := by
  revert h
  cases k <;> cases k' <;> decide

theorem Reads.operand (hk : k.operands? = some k') (h : Reads (.tier k' e) toks) :
    Reads (.tier k e) toks := by
  intro n least rest hle hstops hopen hn
  have hheight := Tier.operands?_height hk
  exact h n least rest (by omega) (hstops.mono (Tier.reach_le hk).2) hopen hn

theorem IsInfix.kind_ne_lparen (h : IsInfix op t) : t.kind ≠ .lparen := by
  rcases h.kind_eq with hkind | hkind <;> simp [hkind]

/-- The left operand is read up to the operator, and the operator then takes the right one: what
follows is too weak for it. -/
theorem Reads.fromLeft (hk : k.operands? = some k') (hop : op ∈ k.operators) (ht : IsInfix op t)
    (hl : Reads (.tier k l) ls) (hr : Reads (.tier k' r) rs) :
    Reads (.tier k (.binary l op r)) (ls ++ t :: rs) := by
  intro n least rest hle hstops hopen hn
  rw [List.length_append, List.length_cons] at hn
  obtain ⟨hreach, hmono⟩ := Tier.reach_le hk
  have hheight := Tier.operands?_height hk
  have hstrength := Tier.sourceStrength_of_mem hop
  have hinfix := infixOp?_of_isInfix ht
  -- only a power takes an operand of its own strength on the right, and its tier is not read from the left
  have hright : rightStrength dialect op = k'.height := by
    have hne : op ≠ .pow := by
      rintro rfl
      have hmost : k'.height ≤ 7 := k'.height_le
      have htop : InfixOp.pow.sourceStrength = 7 := rfl
      omega
    rw [rightStrength_eq, if_neg hne]
    omega
  have hstops₁ : Stops dialect k.reach (t :: (rs ++ rest)) :=
    stops_operator hinfix (by change op.sourceStrength < _; omega)
  obtain ⟨m₁, hm₁, hleft⟩ := hl n least (t :: (rs ++ rest)) hle hstops₁ ht.kind_ne_lparen (by omega)
  obtain ⟨m₂, rfl⟩ : ∃ m, m₁ = m + 1 := ⟨m₁ - 1, by omega⟩
  obtain ⟨m₃, hm₃, hread⟩ :=
    hr m₂ k'.height rest (Nat.le_refl _) (hstops.mono hmono) hopen (by omega)
  obtain ⟨m₄, rfl⟩ : ∃ m, m₃ = m + 1 := ⟨m₃ - 1, by omega⟩
  rw [climb_of_stops (hreach ▸ hstops), ← hright] at hread
  refine ⟨m₂, by rw [List.length_append, List.length_cons]; omega, ?_⟩
  rw [List.append_assoc, List.cons_append, hleft,
    climb_of_expression hinfix (by change _ ≤ op.sourceStrength; omega) hread]
  rfl

theorem Reads.base (h : Reads (.unary e) toks) : Reads (.tier .power e) toks := by
  intro n least rest _ _ hopen hn
  obtain ⟨m, rfl⟩ : ∃ m, n = m + 1 := ⟨n - 1, by omega⟩
  exact ⟨m, by omega, expression_of_unary (h m rest hopen (by omega))⟩

theorem Reads.fromRight (ht : IsInfix .pow t) (hl : Reads (.unary l) ls) (hr : Reads (.tier .power r) rs) :
    Reads (.tier .power (.binary l .pow r)) (ls ++ t :: rs) := by
  intro n least rest hle hstops hopen hn
  rw [List.length_append, List.length_cons] at hn
  obtain ⟨m, rfl⟩ : ∃ m, n = m + 2 := ⟨n - 2, by omega⟩
  have hleft := hl (m + 1) (t :: (rs ++ rest)) ht.kind_ne_lparen (by omega)
  obtain ⟨m₁, hm₁, hread⟩ := hr m 7 rest (Nat.le_refl _) hstops hopen (by omega)
  obtain ⟨m₂, rfl⟩ : ∃ m, m₁ = m + 1 := ⟨m₁ - 1, by omega⟩
  rw [climb_of_stops (show Stops dialect 7 rest from hstops)] at hread
  refine ⟨m, by rw [List.length_append, List.length_cons]; omega, ?_⟩
  rw [List.append_assoc, List.cons_append, expression_of_unary hleft,
    climb_of_expression (infixOp?_of_isInfix ht) hle hread]
  rfl

theorem Reads.signed {m : Token} {v : Number} (hm : IsPrefix .neg m) (ht : t.kind = .number)
    (hv : Number.ofText ("-" ++ t.text) = .ok v) : Reads (.unary (.literal v)) [m, t] := by
  intro n rest _ hn
  obtain ⟨n, rfl⟩ : ∃ n', n = n' + 1 := ⟨n - 1, by simp at hn; omega⟩
  exact unary_minus_numeral (prefixOp?_of_isPrefix hm) ht (mapError_eq_ok.mpr hv)

theorem Reads.applied {op : PrefixOp} (ht : IsPrefix op t) (hsign : op = .neg → ¬ BeginsWithNumeral toks)
    (hbegins : Begins toks) (h : Reads (.unary e) toks) : Reads (.unary (.unary op e)) (t :: toks) := by
  intro n rest hopen hn
  rw [List.length_cons] at hn
  obtain ⟨n, rfl⟩ : ∃ n', n = n' + 1 := ⟨n - 1, by omega⟩
  obtain ⟨u, us, rfl, -⟩ := hbegins
  refine unary_of_prefixOp (prefixOp?_of_isPrefix ht) ?_ (h n rest hopen (by omega))
  exact fun hneg hnumber => hsign hneg ⟨u, us, rfl, hnumber⟩

theorem isFree_of_fold {op : FoldOp} (ht : t.kind = .ident) (hname : t.text = op.name) : IsFree t := by
  refine ⟨ht, ?_, ?_⟩ <;> rw [hname] <;> cases op <;> decide

/-- The first token of a primary expression is no operator. -/
theorem Derives.head_of_primary (h : Derives (.primary e) toks) (hgenuine : ∀ t ∈ toks, Genuine t) :
    ∃ t rest, toks = t :: rest ∧ prefixOp? t = none := by
  cases h with
  | numeral ht => exact ⟨_, _, rfl, prefixOp?_of_kind (by simp [ht]) (by simp [ht])⟩
  | named hfree | call hfree =>
    exact ⟨_, _, rfl, ((isFree_iff (hgenuine _ List.mem_cons_self) hfree.1).mp hfree).1⟩
  | fold hkind hname =>
    have hfree := isFree_of_fold hkind hname
    exact ⟨_, _, rfl, ((isFree_iff (hgenuine _ List.mem_cons_self) hfree.1).mp hfree).1⟩
  | array ho | group ho => exact ⟨_, _, rfl, prefixOp?_of_kind (by simp [ho]) (by simp [ho])⟩

theorem Reads.plain (hhead : ∃ t rest, toks = t :: rest ∧ prefixOp? t = none)
    (h : Reads (.primary e) toks) : Reads (.unary e) toks := by
  intro n rest hopen hn
  obtain ⟨t, us, rfl, ht⟩ := hhead
  rw [List.length_cons] at hn
  obtain ⟨n, rfl⟩ : ∃ n', n = n' + 1 := ⟨n - 1, by omega⟩
  rw [List.cons_append, unary_of_primary ht]
  exact h n rest hopen (by rw [List.length_cons]; omega)

theorem Reads.numeral {v : Number} (ht : t.kind = .number) (hv : Number.ofText t.text = .ok v) :
    Reads (.primary (.literal v)) [t] := by
  intro n rest _ hn
  obtain ⟨n, rfl⟩ : ∃ n', n = n' + 1 := ⟨n - 1, by simp at hn; omega⟩
  exact primary_numeral ht (mapError_eq_ok.mpr hv)

theorem Reads.named (ht : Genuine t) (hfree : IsFree t) : Reads (.primary (.ident t.text)) [t] := by
  intro n rest hopen hn
  obtain ⟨n, rfl⟩ : ∃ n', n = n' + 1 := ⟨n - 1, by simp at hn; omega⟩
  exact primary_ident_of_ne rfl hfree.1 ((isFree_iff ht hfree.1).mp hfree).2 hopen

/-- A function or a reduction with its arguments. -/
theorem Reads.called {f o : Token} (hf : Genuine f) (hfree : IsFree f) (ho : o.kind = .lparen)
    (h : Reads (.arguments es) toks) (hc : c.kind = .rparen) :
    Reads (.primary (callTree f.text es)) (f :: o :: (toks ++ [c])) := by
  intro n rest _ hn
  simp only [List.length_cons, List.length_append, List.length_nil] at hn
  obtain ⟨n, rfl⟩ : ∃ n', n = n' + 1 := ⟨n - 1, by omega⟩
  have hargs := h n .closeParen c rest (Or.inl hc) (by omega)
  rw [hc] at hargs
  have hread := primary_call rfl hfree.1 ((isFree_iff hf hfree.1).mp hfree).2 ho hargs
  simpa using hread

theorem Reads.array {o : Token} (ho : o.kind = .lbracket) (h : Reads (.arguments es) toks)
    (hc : c.kind = .rbracket) : Reads (.primary (.array es)) (o :: (toks ++ [c])) := by
  intro n rest _ hn
  simp only [List.length_cons, List.length_append, List.length_nil] at hn
  obtain ⟨n, rfl⟩ : ∃ n', n = n' + 1 := ⟨n - 1, by omega⟩
  have hitems := h n .closeBracket c rest (Or.inr hc) (by omega)
  rw [hc] at hitems
  have hread := primary_array (d := dialect) rfl ho hitems
  simpa using hread

theorem Reads.group {o : Token} (ho : o.kind = .lparen) (h : Reads (.tier .disjunction e) toks)
    (hc : c.kind = .rparen) : Reads (.primary e) (o :: (toks ++ [c])) := by
  intro n rest _ hn
  simp only [List.length_cons, List.length_append, List.length_nil] at hn
  obtain ⟨n, rfl⟩ : ∃ n', n = n' + 1 := ⟨n - 1, by omega⟩
  have hinner := h.whole (Nat.zero_le _) (Closes.ends (Or.inl hc) rest) (n := n) (by omega)
  simpa using primary_parenthesized ho hc hinner

theorem Reads.single (h : Reads (.tier .disjunction e) toks) : Reads (.row [e]) toks := by
  intro n what c rest hc hn
  obtain ⟨n, rfl⟩ : ∃ n', n = n' + 1 := ⟨n - 1, by omega⟩
  exact argumentsFrom_last hc.ne_comma (h.whole (Nat.zero_le _) (hc.ends rest) (by omega))

theorem Reads.more {comma : Token} (h : Reads (.tier .disjunction e) toks) (hcomma : comma.kind = .comma)
    (hothers : Reads (.row es) rs) : Reads (.row (e :: es)) (toks ++ comma :: rs) := by
  intro n what c rest hc hn
  simp only [List.length_cons, List.length_append] at hn
  obtain ⟨n, rfl⟩ : ∃ n', n = n' + 1 := ⟨n - 1, by omega⟩
  have hends : Ends (comma :: (rs ++ c :: rest)) :=
    ends_of_kind hcomma (by decide) (by decide) (by decide)
  rw [List.append_assoc, List.cons_append]
  exact argumentsFrom_more hcomma (h.whole (Nat.zero_le _) hends (by omega))
    (hothers n what c rest hc (by omega))

theorem Reads.empty : Reads (.arguments []) [] := by
  intro n what c rest _ hn
  obtain ⟨n, rfl⟩ : ∃ n', n = n' + 1 := ⟨n - 1, by omega⟩
  exact arguments_nil what

theorem Reads.nonempty (hbegins : Begins toks) (h : Reads (.row es) toks) :
    Reads (.arguments es) toks := by
  intro n what c rest hc hn
  obtain ⟨n, rfl⟩ : ∃ n', n = n' + 1 := ⟨n - 1, by omega⟩
  obtain ⟨t, us, rfl, hparen, hbracket⟩ := hbegins
  have hne : (peek (t :: us ++ c :: rest)).kind ≠ c.kind := by
    rcases hc with hc | hc <;> rw [hc] <;> assumption
  rw [arguments_of_ne what hne]
  exact h n what c rest hc (by omega)

/-- **The reader accepts what is derived.** -/
theorem Derives.reads (h : Derives ph toks) (hgenuine : ∀ t ∈ toks, Genuine t) : Reads ph toks := by
  induction h with
  | operand hk _ ih => exact .operand hk (ih hgenuine)
  | fromLeft hk hop ht _ _ ihl ihr =>
    exact .fromLeft hk hop ht (ihl fun u hu => hgenuine u (by simp [hu]))
      (ihr fun u hu => hgenuine u (by simp [hu]))
  | base _ ih => exact .base (ih hgenuine)
  | fromRight ht _ _ ihl ihr =>
    exact .fromRight ht (ihl fun u hu => hgenuine u (by simp [hu]))
      (ihr fun u hu => hgenuine u (by simp [hu]))
  | signed hm ht _ hv => exact .signed hm ht hv
  | applied ht hsign h ih => exact .applied ht hsign h.begun (ih fun u hu => hgenuine u (by simp [hu]))
  | plain h ih => exact .plain (h.head_of_primary hgenuine) (ih hgenuine)
  | numeral ht hv => exact .numeral ht hv
  | named hfree => exact .named (hgenuine _ List.mem_cons_self) hfree
  | call hfree hname ho _ hc ih =>
    have hcall := Reads.called (hgenuine _ List.mem_cons_self) hfree ho
      (ih fun u hu => hgenuine u (by simp [hu])) hc
    simpa only [callTree, hname] using hcall
  | fold hkind hname ho _ hc ih =>
    have hcall := Reads.called (hgenuine _ List.mem_cons_self) (isFree_of_fold hkind hname) ho
      (ih fun u hu => hgenuine u (by simp [hu])) hc
    simpa only [callTree, foldOp_ofName?_eq_some.mpr hname] using hcall
  | array ho _ hc ih => exact .array ho (ih fun u hu => hgenuine u (by simp [hu])) hc
  | group ho _ hc ih => exact .group ho (ih fun u hu => hgenuine u (by simp [hu])) hc
  | single _ ih => exact .single (ih hgenuine)
  | more _ hcomma _ ih ihs =>
    exact .more (ih fun u hu => hgenuine u (by simp [hu])) hcomma
      (ihs fun u hu => hgenuine u (by simp [hu]))
  | empty => exact .empty
  | nonempty h ih => exact .nonempty h.begun (ih hgenuine)

/-! ## Statements -/

theorem Derives.expression (h : Derives (.tier .disjunction e) toks) (hgenuine : ∀ t ∈ toks, Genuine t)
    (hends : Ends rest) : dialect.expression (toks ++ rest) = .ok (e, rest) := by
  refine (h.reads hgenuine).whole (Nat.zero_le _) hends ?_
  rw [bound, List.length_append]
  omega

theorem moreParams_of_ne_comma (hc : c.kind ≠ .comma) :
    Parser.moreParams (c :: rest) = .ok ([], c :: rest) := by
  cases rest with
  | nil => rw [Parser.moreParams, if_neg hc]
  | cons t rest => rw [Parser.moreParams, if_neg hc]

/-- Behind a comma the names are read as if they were the first. -/
theorem moreParams_comma {comma : Token} (hcomma : comma.kind = .comma) (ht : t.kind = .ident) :
    Parser.moreParams (comma :: t :: rest) = Parser.params (t :: rest) := by
  rw [Parser.moreParams, if_pos hcomma, if_pos ht, Parser.params, if_pos ht]

theorem params_ident {names : List String} {us : List Token} (ht : t.kind = .ident)
    (h : Parser.moreParams us = .ok (names, rest)) :
    Parser.params (t :: us) = .ok (t.text :: names, rest) := by
  rw [Parser.params, if_pos ht, h]
  rfl

theorem DerivesNames.params {names : List String} (h : DerivesNames names toks) (hc : c.kind ≠ .comma) :
    Parser.params (toks ++ c :: rest) = .ok (names, c :: rest) := by
  induction h with
  | single ht => exact params_ident ht (moreParams_of_ne_comma hc)
  | more ht hcomma hothers ih =>
    refine params_ident ht ?_
    cases hothers with
    | single hu | more hu => exact (moreParams_comma hcomma hu).trans ih

theorem DerivesParams.params {names : List String} (h : DerivesParams names toks) (hc : c.kind = .rparen) :
    Parser.params (toks ++ c :: rest) = .ok (names, c :: rest) := by
  rcases h with ⟨rfl, rfl⟩ | h
  · rw [List.nil_append, Parser.params, if_neg (by simp [hc])]
  · exact h.params (by simp [hc])

/-- **A statement that is derived is read**, if it is followed by nothing of its own. -/
theorem DerivesStmt.statement {s : Stmt} (h : DerivesStmt s toks) (hgenuine : ∀ t ∈ toks, Genuine t)
    (hends : Ends rest) : Parser.statement (toks ++ rest) = .ok (s, rest) := by
  cases h with
  | importVar hw hx | exportVar hw hx =>
    simp only [Parser.statement, List.cons_append, peek_cons, List.tail_cons, hw.1, hw.2, true_and]
    simp only [List.nil_append, expect_of_kind _ hx]
    rfl
  | letVar hw hx hq he =>
    have hread := he.expression (fun u hu => hgenuine u (by simp [hu])) hends
    simp only [Parser.statement, List.cons_append, peek_cons, List.tail_cons, hw.1, hw.2, true_and]
    simp only [Parser.binding, expect_of_kind _ hx, expect_of_kind _ hq, hread, bind, Except.bind]
    rfl
  | define hw hf ho hps hc hq hbody =>
    have hread := hbody.expression (fun u hu => hgenuine u (by simp [hu])) hends
    simp only [Parser.statement, List.cons_append, peek_cons, List.tail_cons, hw.1, hw.2, true_and]
    simp only [Parser.definition, List.append_assoc, List.cons_append, expect_of_kind _ hf,
      expect_of_kind _ ho, expect_of_kind _ hc, expect_of_kind _ hq, hps.params hc, hread, bind,
      Except.bind]
    rfl

theorem DerivesStmt.peek_ne_eof {s : Stmt} (h : DerivesStmt s toks) (rest : List Token) :
    (peek (toks ++ rest)).kind ≠ .eof := by
  cases h with
  | importVar hw | define hw | letVar hw | exportVar hw => simp [peek, hw.1]

/-- **Statements that are derived are read**, up to the end of the text. -/
theorem DerivesStmts.statements {p : Program} {body : List Token} {stop : Token}
    (h : DerivesStmts p body) (hgenuine : ∀ t ∈ body, Genuine t) (hstop : stop.kind = .eof)
    (hn : body.length < n) : Parser.statements n (body ++ [stop]) = .ok p := by
  induction h generalizing n with
  | empty =>
    obtain ⟨n, rfl⟩ : ∃ n', n = n' + 1 := ⟨n - 1, by omega⟩
    rw [List.nil_append, Parser.statements, if_pos (by simp [peek_cons, hstop])]
  | last hs =>
    obtain ⟨n, rfl⟩ : ∃ n', n = n' + 1 := ⟨n - 1, by omega⟩
    have hends : Ends [stop] := ends_of_kind hstop (by decide) (by decide) (by decide)
    rw [Parser.statements, if_neg (hs.peek_ne_eof _), hs.statement hgenuine hends]
    simp [bind, Except.bind, peek_cons, hstop, pure, Except.pure]
  | @more s p c toks rest hs hsemi _ ih =>
    rw [List.length_append, List.length_cons] at hn
    obtain ⟨n, rfl⟩ : ∃ n', n = n' + 1 := ⟨n - 1, by omega⟩
    have hends : Ends (c :: (rest ++ [stop])) := ends_of_kind hsemi (by decide) (by decide) (by decide)
    have hread := hs.statement (fun u hu => hgenuine u (by simp [hu])) hends
    have hmore := ih (fun u hu => hgenuine u (by simp [hu])) (n := n) (by omega)
    rw [List.append_assoc, List.cons_append, Parser.statements, if_neg (hs.peek_ne_eof _), hread]
    simp [bind, Except.bind, peek_cons, hsemi, hmore, pure, Except.pure]

/-! ## Programs -/

/-- The tokens of a text: all but the last are split off it, and the last is the end. -/
theorem genuine_of_tokenize {text : String} (h : tokenize text = .ok toks) :
    ∃ body stop, toks = body ++ [stop] ∧ stop.kind = .eof ∧ ∀ t ∈ body, Scanned t := by
  obtain ⟨body, q, rfl, hbody⟩ := scanned_of_tokensFrom h
  exact ⟨body, _, rfl, rfl, hbody⟩

theorem parse_eq_ok {text : String} {p : Program} :
    parse text = .ok p ↔ ∃ toks, tokenize text = .ok toks ∧ Parser.program toks = .ok p := by
  simp only [parse, bind_eq_ok, mapError_eq_ok]

theorem program_of_derives {text : String} {p : Program} (htext : tokenize text = .ok toks)
    (h : DerivesProgram p toks) : Parser.program toks = .ok p := by
  obtain ⟨body, stop, rfl, hstop, hp⟩ := h
  obtain ⟨body', stop', heq, -, hbody⟩ := genuine_of_tokenize htext
  obtain ⟨rfl, -⟩ := List.append_inj' heq rfl
  refine hp.statements (fun t ht => Or.inl (hbody t ht)) hstop ?_
  rw [List.length_append]
  omega

theorem derives_of_program {text : String} {p : Program} (htext : tokenize text = .ok toks)
    (h : Parser.program toks = .ok p) : DerivesProgram p toks := by
  obtain ⟨body, stop, rfl, hstop, hbody⟩ := genuine_of_tokenize htext
  exact ⟨body, stop, rfl, hstop, derives_of_statements hbody hstop h⟩

/-- **The reader accepts exactly the grammar.**  A program is read from the tokens of a text if and only
if they derive it, and they derive no second one. -/
theorem program_eq_ok_iff {text : String} (htext : tokenize text = .ok toks) (p : Program) :
    (Parser.program toks = .ok p ↔ DerivesProgram p toks) ∧
      ∀ q, DerivesProgram p toks → DerivesProgram q toks → p = q := by
  refine ⟨⟨derives_of_program htext, program_of_derives htext⟩, ?_⟩
  intro q hp hq
  exact Except.ok.inj ((program_of_derives htext hp).symm.trans (program_of_derives htext hq))

/-- A program that says how operators of several tiers group. -/
def grouped : Program :=
  [.letVar "y" (.binary
    (.binary
      (.binary (.literal (.ofRaw (-20000))) .pow
        (.binary (.unary .not (.ident "x")) .pow (.unary .neg (.literal (.ofRaw 30000)))))
      .sub (.literal .one))
    .sub (.fold .add [.ident "sum", .array []])),
  .exportVar "and"]

theorem program_eq_ok_iff_grouped :
    ∃ toks, tokenize "let y = -2 ^ not x ^ -(3) - 1 - sum(sum, []); export and;" = .ok toks ∧
      ∀ p, DerivesProgram p toks ↔ p = grouped := by
  obtain ⟨toks, htoks, hread⟩ := parse_eq_ok.mp (eq_ok_of_toOption (show (parse
    "let y = -2 ^ not x ^ -(3) - 1 - sum(sum, []); export and;").toOption = some grouped by
      decide +kernel))
  have hgrouped := (program_eq_ok_iff htoks grouped).1.mp hread
  refine ⟨toks, htoks, fun p => ⟨?_, ?_⟩⟩
  · intro hp
    exact (program_eq_ok_iff htoks p).2 grouped hp hgrouped
  · rintro rfl
    exact hgrouped

end Straightline.Source
