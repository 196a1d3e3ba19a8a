import Mathlib.Logic.Relation
import Straightline.Proofs.Planning

/-!
# How deep the readers go

A plan *keeps to its place* (`Plan.Keeps`) if it goes on through tokens that it takes, asks only for
calls further on or for lower readers before the same tokens, and complains only about a token it has
come to.  Every reader does (`Call.keeps_plan`).  From this alone it follows that a reader takes tokens
off the front and nothing else (`Call.kept_read`), that calls nest no deeper than the tokens allow
(`Call.Nested.le_weight`), and that the bound on their depth is used up by calls that nest too deep and
by nothing else (`Call.read_eq_tooDeep_iff`).

With the bound out of the way, a call has a result (`Call.result`), and errors are passed on: what a call
fails with, the call that asked for it fails with (`Plan.Asks.run_eq_error`), and an error that is not the
grammar's is that of a numeral which some call has read (`Plan.Keeps.of_run_eq_error`).
-/

namespace Straightline.Grammar

open Relation

variable {ε α β : Type} {d : Dialect ε} {t : Token} {toks rest row : List Token} {e : ReadError}
  {n : Nat}

/-! ## Taking tokens -/

/-- **A token that a reader can take**: it is not the end, and if it is a numeral, it spells a number. -/
structure Acceptable (t : Token) : Prop where
  kind_ne_eof : t.kind ≠ .eof
  numeral : t.kind = .number → ∃ negative v, numeral negative t = .ok v

/-- The kinds of tokens that can be taken whatever their text is. -/
def isPlain : Token.Kind → Bool
  | .number | .eof => false
  | _ => true

theorem acceptable_of_kind {kind : Token.Kind} (h : t.kind = kind) (hplain : isPlain kind = true) :
    Acceptable t := by
  refine ⟨?_, fun hkind => ?_⟩
  · intro hkind
    rw [← h, hkind] at hplain
    cases hplain
  · rw [← h, hkind] at hplain
    cases hplain

theorem Bracket.isPlain_close (b : Bracket) : isPlain b.close = true := by
  cases b <;> rfl

/-- A reader takes the token at the front. -/
inductive Takes : List Token → List Token → Prop
  | token {t : Token} {rest : List Token} (h : Acceptable t) : Takes (t :: rest) rest

theorem takes_of_kind {kind : Token.Kind} (h : t.kind = kind) (hplain : isPlain kind = true) :
    Takes (t :: rest) rest :=
  .token (acceptable_of_kind h hplain)

theorem takes_tail_of_kind {kind : Token.Kind} (h : (peek toks).kind = kind)
    (hplain : isPlain kind = true) : Takes toks toks.tail := by
  cases toks with
  | nil =>
    subst h
    cases hplain
  | cons t rest => exact takes_of_kind h hplain

theorem takes_of_infixOp? {op : InfixOp} (h : infixOp? t = some op) : Takes (t :: rest) rest := by
  by_cases hop : t.kind = .op
  · exact takes_of_kind hop rfl
  · by_cases hident : t.kind = .ident
    · exact takes_of_kind hident rfl
    · rw [infixOp?_of_kind rfl hop hident] at h
      cases h

theorem takes_of_prefixOp? {op : PrefixOp} (h : prefixOp? (peek toks) = some op) :
    Takes toks toks.tail := by
  by_cases hop : (peek toks).kind = .op
  · exact takes_tail_of_kind hop rfl
  · by_cases hident : (peek toks).kind = .ident
    · exact takes_tail_of_kind hident rfl
    · rw [prefixOp?_of_kind hop hident] at h
      cases h

theorem Takes.length_lt (h : Takes toks rest) : rest.length < toks.length := by
  cases h
  exact Nat.lt_succ_self _

theorem length_lt_of_takes (h : TransGen Takes toks rest) : rest.length < toks.length := by
  induction h with
  | single h => exact h.length_lt
  | tail _ h ih => exact Nat.lt_trans h.length_lt ih

theorem suffix_of_takes (h : ReflTransGen Takes toks rest) : rest <:+ toks := by
  induction h with
  | refl => exact List.suffix_rfl
  | tail _ h ih =>
    cases h
    exact (List.suffix_cons _ _).trans ih

/-- **A row of tokens that comes to its end**: the last one, and no other, is the end of the text. -/
def Ended (toks : List Token) : Prop :=
  ∃ body stop, toks = body ++ [stop] ∧ stop.kind = .eof ∧ ∀ t ∈ body, t.kind ≠ .eof

theorem Ended.takes (h : Ended toks) (ht : Takes toks rest) : Ended rest := by
  obtain ⟨body, stop, rfl, hstop, hbody⟩ := h
  cases body with
  | nil =>
    cases ht with
    | token ht => exact absurd hstop ht.kind_ne_eof
  | cons t body =>
    cases ht
    exact ⟨body, stop, rfl, hstop, fun u hu => hbody u (List.mem_cons_of_mem _ hu)⟩

/-- **Taking tokens does not lead past the end.** -/
theorem Ended.of_takes (h : Ended toks) (ht : ReflTransGen Takes toks rest) : Ended rest := by
  induction ht with
  | refl => exact h
  | tail _ ht ih => exact ih.takes ht

theorem Ended.peek_mem (h : Ended toks) : peek toks ∈ toks := by
  obtain ⟨body, stop, rfl, -, -⟩ := h
  cases body with
  | nil => exact List.mem_singleton_self stop
  | cons t body => exact List.mem_cons_self

/-- Where the end comes next, nothing else is left. -/
theorem Ended.eq_singleton (h : Ended toks) (hkind : (peek toks).kind = .eof) : ∃ stop, toks = [stop] := by
  obtain ⟨body, stop, rfl, -, hbody⟩ := h
  cases body with
  | nil => exact ⟨stop, rfl⟩
  | cons t body => exact absurd hkind (hbody t List.mem_cons_self)

/-- **A token that cannot be taken is not passed.** -/
theorem suffix_of_not_acceptable (ht : ¬ Acceptable t) (hrow : t :: rest <:+ toks)
    (h : ReflTransGen Takes toks row) : t :: rest <:+ row := by
  induction h with
  | refl => exact hrow
  | tail _ h ih =>
    cases h with
    | token hu =>
      rcases List.suffix_cons_iff.mp ih with heq | hsuffix
      · exact absurd ((List.cons.inj heq).1 ▸ hu) ht
      · exact hsuffix

/-! ## Refusing a token -/

/-- **An error at a token**: another one was called for there, or it is a numeral that is not read. -/
inductive StandsAt (t : Token) : ReadError → Prop
  | expected (what : Expectation) : StandsAt t (.parse (.expected what t))
  | unexpected : StandsAt t (.parse (.unexpected t))
  | number {negative : Bool} {e : ReadError} (hkind : t.kind = .number)
      (h : numeral negative t = .error e) : StandsAt t e

theorem StandsAt.ne_tooDeep (h : StandsAt t e) : e ≠ .tooDeep := by
  rintro rfl
  cases h with
  | number _ h =>
    obtain ⟨error, -, heq⟩ := mapError_eq_error.mp h
    cases error <;> cases heq

/-- **A row of tokens is refused**: some of them can be taken, and the next one is in error. -/
def Refuses (toks : List Token) (e : ReadError) : Prop :=
  ∃ row, ReflTransGen Takes toks row ∧ StandsAt (peek row) e

theorem StandsAt.refuses (h : StandsAt (peek toks) e) : Refuses toks e := ⟨toks, .refl, h⟩

theorem Refuses.of_takes (h : Refuses rest e) (ht : ReflTransGen Takes toks rest) : Refuses toks e := by
  obtain ⟨row, hrow, he⟩ := h
  exact ⟨row, ht.trans hrow, he⟩

theorem Refuses.ne_tooDeep (h : Refuses toks e) : e ≠ .tooDeep := by
  obtain ⟨row, -, he⟩ := h
  exact he.ne_tooDeep

theorem takes_of_expect {kind : Token.Kind} {what : Expectation} (hplain : isPlain kind = true)
    (h : expect kind what toks = .ok (t, rest)) : Takes toks rest := by
  obtain ⟨rfl, hkind⟩ := expect_eq_ok.mp h
  exact takes_of_kind hkind hplain

theorem error_of_expect {kind : Token.Kind} {what : Expectation} (h : expect kind what toks = .error e) :
    e = .parse (.expected what (peek toks)) := by
  cases toks with
  | nil =>
    cases h
    rfl
  | cons t rest =>
    rw [expect] at h
    split at h
    · cases h
    · cases h
      rfl

/-! ## Places -/

/-- The readers, and the loop over the statements of a program. -/
inductive Procedure where
  | statements
  | expression
  | climb
  | unary
  | primary
  | arguments
  | argumentsFrom
  deriving DecidableEq

/-- A procedure calls a lower one before it has taken a token. -/
def Procedure.rank : Procedure → Nat
  | .primary | .climb => 0
  | .unary => 1
  | .expression => 2
  | .argumentsFrom => 3
  | .arguments => 4
  | .statements => 5

/-- Whether a procedure takes a token whenever it returns; there may be no operator to climb over. -/
def Procedure.takesSome : Procedure → Bool
  | .climb => false
  | _ => true

/-- The reader that is called. -/
def Call.procedure : Call ε α → Procedure
  | .expression _ _ => .expression
  | .climb _ _ _ => .climb
  | .unary _ => .unary
  | .primary _ => .primary
  | .arguments _ _ => .arguments
  | .argumentsFrom _ _ => .argumentsFrom

/-- The tokens in front of the reader. -/
def Call.tokens : Call ε α → List Token
  | .expression _ toks | .climb _ _ toks | .unary toks | .primary toks | .arguments _ toks
  | .argumentsFrom _ toks => toks

/-- **A place in a run**: a procedure, and the tokens in front of it. -/
structure Place where
  procedure : Procedure
  tokens : List Token

/-- Where a call is made. -/
def Call.place (c : Call ε α) : Place := ⟨c.procedure, c.tokens⟩

/-- **One place is below another**: further on in the tokens, or at a lower procedure before the same
ones. -/
def Below (a b : Place) : Prop :=
  TransGen Takes a.tokens b.tokens ∨ b.tokens = a.tokens ∧ b.procedure.rank < a.procedure.rank

theorem below_of_rank (p q : Procedure) (toks : List Token) (h : q.rank < p.rank) :
    Below ⟨p, toks⟩ ⟨q, toks⟩ :=
  Or.inr ⟨rfl, h⟩

theorem Below.takes {a b : Place} (h : Below a b) : ReflTransGen Takes a.tokens b.tokens := by
  rcases h with h | ⟨h, -⟩
  · exact h.to_reflTransGen
  · rw [h]

theorem Below.trans {a b c : Place} (h : Below a b) (h' : Below b c) : Below a c := by
  rcases h with h | ⟨htoks, hrank⟩
  · exact Or.inl (h.trans_left h'.takes)
  · rcases h' with h' | ⟨htoks', hrank'⟩
    · exact Or.inl (htoks ▸ h')
    · exact Or.inr ⟨htoks'.trans htoks, Nat.lt_trans hrank' hrank⟩

/-- **Coming back to a procedure takes a token.** -/
theorem Below.length_lt {a b : Place} (h : Below a b) (heq : b.procedure = a.procedure) :
    b.tokens.length < a.tokens.length := by
  rcases h with h | ⟨-, hrank⟩
  · exact length_lt_of_takes h
  · exact absurd (heq ▸ hrank) (Nat.lt_irrefl _)

/-- The calls that can still be made one inside the other. -/
def Place.weight (a : Place) : Nat := 6 * a.tokens.length + a.procedure.rank

theorem Procedure.rank_lt (p : Procedure) : p.rank < 6 := by
  cases p <;> decide

theorem Below.weight_lt {a b : Place} (h : Below a b) : b.weight < a.weight := by
  have hrank := b.procedure.rank_lt
  unfold Place.weight
  rcases h with h | ⟨htoks, hlt⟩
  · have hlength := length_lt_of_takes h
    omega
  · rw [htoks]
    omega

/-- **What a procedure leaves** of the tokens in front of it. -/
structure Place.Leaves (a : Place) (rest : List Token) : Prop where
  takes : ReflTransGen Takes a.tokens rest
  takesSome : a.procedure.takesSome = true → TransGen Takes a.tokens rest

theorem Place.Leaves.of_takes {a : Place} (h : TransGen Takes a.tokens rest) : a.Leaves rest :=
  ⟨h.to_reflTransGen, fun _ => h⟩

/-- **A numeral that a procedure reads**: the next token, or the one behind a minus sign. -/
inductive Place.Reads : Place → Bool → Token → Prop
  | plain {toks : List Token} (h : (peek toks).kind = .number) :
      Reads ⟨.primary, toks⟩ false (peek toks)
  | signed {toks : List Token} (hop : prefixOp? (peek toks) = some .neg)
      (h : (peek toks.tail).kind = .number) : Reads ⟨.unary, toks⟩ true (peek toks.tail)

/-- **An error that a procedure raises**: one of the grammar, or that of a numeral which it reads. -/
def Place.Raises (a : Place) (e : ReadError) : Prop :=
  (∃ error, e = .parse error) ∨ ∃ negative t, a.Reads negative t ∧ numeral negative t = .error e

theorem Place.raises_parse (a : Place) (error : ParseError) : a.Raises (.parse error) :=
  Or.inl ⟨error, rfl⟩

/-! ## Plans that keep to their place -/

/-- **A plan that keeps to its place**: it calls only what is below it, if it answers, it leaves what a
procedure can leave, and if it complains, it is about a token that it has come to and for a reason of its
own. -/
inductive Plan.Keeps (a : Place) : Plan ε α → Prop
  | ok {x : α} {rest : List Token} (h : a.Leaves rest) : Keeps a (.answer (.ok (x, rest)))
  | error {e : ReadError} (h : Refuses a.tokens e) (hraises : a.Raises e) : Keeps a (.answer (.error e))
  | ask {β : Type} {c : Call ε β} {next : β → List Token → Plan ε α} (h : Below a c.place)
      (hnext : ∀ b rest, c.place.Leaves rest → Keeps a (next b rest)) : Keeps a (.ask c next)

theorem Plan.Keeps.last {a : Place} {c : Call ε α} (h : Below a c.place)
    (hleaves : ∀ rest, c.place.Leaves rest → a.Leaves rest) : (Plan.last c).Keeps a :=
  .ask h fun _ _ hrest => .ok (hleaves _ hrest)

/-- Behind a step that takes some tokens, or refuses one. -/
theorem Plan.Keeps.after {a : Place} {step : Except ReadError β} {next : β → Plan ε α}
    (hok : ∀ b, step = .ok b → (next b).Keeps a)
    (herror : ∀ e, step = .error e → Refuses a.tokens e ∧ a.Raises e) : (Plan.after step next).Keeps a := by
  cases step with
  | error e => exact .error (herror e rfl).1 (herror e rfl).2
  | ok b => exact hok b rfl

/-- Behind a token that is called for. -/
theorem Plan.Keeps.expect {a : Place} {kind : Token.Kind} {what : Expectation}
    {next : Token × List Token → Plan ε α} (hplain : isPlain kind = true)
    (htoks : ReflTransGen Takes a.tokens toks)
    (hnext : ∀ t rest, Takes toks rest → (next (t, rest)).Keeps a) :
    (Plan.after (Grammar.expect kind what toks) next).Keeps a := by
  refine .after ?_ ?_
  · rintro ⟨t, rest⟩ hok
    exact hnext t rest (takes_of_expect hplain hok)
  · intro e herror
    obtain rfl := error_of_expect herror
    have hstands : StandsAt (peek toks) (.parse (.expected what (peek toks))) := .expected what
    exact ⟨hstands.refuses.of_takes htoks, a.raises_parse _⟩

/-- Behind a numeral, which is the next token. -/
theorem Plan.Keeps.numeral {a : Place} {negative : Bool} {next : Number → Plan ε α}
    (toks : List Token) (htoks : ReflTransGen Takes a.tokens toks) (hkind : (peek toks).kind = .number)
    (hreads : a.Reads negative (peek toks))
    (hnext : ∀ v, Takes toks toks.tail → (next v).Keeps a) :
    (Plan.after (Grammar.numeral negative (peek toks)) next).Keeps a := by
  refine .after ?_ ?_
  · intro v hv
    cases toks with
    | nil => cases hkind
    | cons t rest =>
      rw [peek_cons] at hkind hv
      exact hnext v (.token ⟨by simp [hkind], fun _ => ⟨negative, v, hv⟩⟩)
  · intro e he
    exact ⟨(StandsAt.number hkind he).refuses.of_takes htoks, Or.inr ⟨negative, _, hreads, he⟩⟩

namespace Call

theorem keeps_expression (least : Nat) (toks : List Token) :
    ((expression least toks : Call ε ε).plan d).Keeps ⟨.expression, toks⟩ := by
  refine .ask (below_of_rank .expression .unary toks (by decide)) fun lhs rest hunary => ?_
  -- the operand has taken a token, so that the operators behind it are further on
  have htakes : TransGen Takes toks rest := hunary.takesSome rfl
  exact .last (Or.inl htakes) fun rest' hclimb => .of_takes (htakes.trans_left hclimb.takes)

theorem keeps_climb (least : Nat) (lhs : ε) (toks : List Token) :
    ((climb least lhs toks).plan d).Keeps ⟨.climb, toks⟩ := by
  have hstop : Place.Leaves ⟨.climb, toks⟩ toks := ⟨.refl, by rintro ⟨⟩⟩
  cases toks with
  | nil => exact .ok hstop
  | cons t rest =>
    rw [plan]
    cases hop : infixOp? t with
    | none => exact .ok hstop
    | some op =>
      have ht : Takes (t :: rest) rest := takes_of_infixOp? hop
      dsimp only
      split
      · exact .ok hstop
      · refine .ask (Or.inl (.single ht)) fun rhs rest' hright => ?_
        have htakes : TransGen Takes (t :: rest) rest' := .head' ht hright.takes
        exact .last (Or.inl htakes) fun rest'' hclimb => .of_takes (htakes.trans_left hclimb.takes)

theorem keeps_unary (toks : List Token) :
    ((unary toks : Call ε ε).plan d).Keeps ⟨.unary, toks⟩ := by
  rw [plan]
  cases hop : prefixOp? (peek toks) with
  | none =>
    exact .last (below_of_rank .unary .primary toks (by decide)) fun rest hprimary =>
      .of_takes (hprimary.takesSome rfl)
  | some op =>
    have ht : Takes toks toks.tail := takes_of_prefixOp? hop
    dsimp only
    split
    · rename_i hsigned
      have hreads : Place.Reads ⟨.unary, toks⟩ true (peek toks.tail) :=
        .signed (hsigned.1 ▸ hop) hsigned.2
      refine .numeral _ (.single ht) hsigned.2 hreads fun v hnumeral => ?_
      exact .ok (.of_takes (.head ht (.single hnumeral)))
    · refine .ask (Or.inl (.single ht)) fun operand rest hunary => ?_
      exact .ok (.of_takes (.head' ht hunary.takes))

theorem keeps_primary (toks : List Token) :
    ((primary toks : Call ε ε).plan d).Keeps ⟨.primary, toks⟩ := by
  cases toks with
  | nil =>
    have hstands : StandsAt (peek []) (.parse (.unexpected nothing)) := .unexpected
    exact .error hstands.refuses (Place.raises_parse _ _)
  | cons t rest =>
    have hstands : StandsAt (peek (t :: rest)) (.parse (.unexpected t)) := .unexpected
    have hunexpected : (Plan.answer (.error (.parse (.unexpected t))) : Plan ε ε).Keeps
        ⟨.primary, t :: rest⟩ := .error hstands.refuses (Place.raises_parse _ _)
    rw [plan]
    cases hkind : t.kind with
    | number =>
      refine .numeral (t :: rest) .refl hkind (.plain hkind) fun v hnumeral => ?_
      exact .ok (.of_takes (.single hnumeral))
    | ident =>
      have ht : Takes (t :: rest) rest := takes_of_kind hkind rfl
      have hname : Place.Leaves ⟨.primary, t :: rest⟩ rest := .of_takes (.single ht)
      dsimp only
      split
      · exact hunexpected
      · cases d.call? with
        | none => exact .ok hname
        | some call =>
          dsimp only
          split
          · rename_i hopen
            have hopen : Takes rest rest.tail := takes_tail_of_kind hopen rfl
            have htakes : TransGen Takes (t :: rest) rest.tail := .head ht (.single hopen)
            refine .ask (Or.inl htakes) fun args rest' hargs => ?_
            exact .ok (.of_takes (htakes.trans_left hargs.takes))
          · exact .ok hname
    | lbracket =>
      have ht : Takes (t :: rest) rest := takes_of_kind hkind rfl
      cases d.array? with
      | none => exact hunexpected
      | some array =>
        refine .ask (Or.inl (.single ht)) fun items rest' hitems => ?_
        exact .ok (.of_takes (.head' ht hitems.takes))
    | lparen =>
      have ht : Takes (t :: rest) rest := takes_of_kind hkind rfl
      refine .ask (Or.inl (.single ht)) fun inner rest' hinner => ?_
      have htakes : TransGen Takes (t :: rest) rest' := .head' ht hinner.takes
      refine .expect rfl htakes.to_reflTransGen fun close rest'' hclose => ?_
      exact .ok (.of_takes (htakes.tail hclose))
    | op | assign | comma | semi | rparen | rbracket | eof => exact hunexpected

theorem keeps_arguments (b : Bracket) (toks : List Token) :
    ((arguments b toks : Call ε (List ε)).plan d).Keeps ⟨.arguments, toks⟩ := by
  rw [plan]
  split
  · rename_i hclose
    exact .ok (.of_takes (.single (takes_tail_of_kind hclose b.isPlain_close)))
  · exact .last (below_of_rank .arguments .argumentsFrom toks (by decide)) fun rest hargs =>
      .of_takes (hargs.takesSome rfl)

theorem keeps_argumentsFrom (b : Bracket) (toks : List Token) :
    ((argumentsFrom b toks : Call ε (List ε)).plan d).Keeps ⟨.argumentsFrom, toks⟩ := by
  refine .ask (below_of_rank .argumentsFrom .expression toks (by decide)) fun first rest hfirst => ?_
  have htakes : TransGen Takes toks rest := hfirst.takesSome rfl
  split
  · rename_i hcomma
    have hcomma : Takes rest rest.tail := takes_tail_of_kind hcomma rfl
    refine .ask (Or.inl (htakes.tail hcomma)) fun more rest' hmore => ?_
    exact .ok (.of_takes ((htakes.tail hcomma).trans_left hmore.takes))
  · refine .expect b.isPlain_close htakes.to_reflTransGen fun close rest' hclose => ?_
    exact .ok (.of_takes (htakes.tail hclose))

/-- **Every reader keeps to its place.** -/
theorem keeps_plan (c : Call ε α) : (c.plan d).Keeps c.place := by
  cases c with
  | expression least toks => exact keeps_expression least toks
  | climb least lhs toks => exact keeps_climb least lhs toks
  | unary toks => exact keeps_unary toks
  | primary toks => exact keeps_primary toks
  | arguments b toks => exact keeps_arguments b toks
  | argumentsFrom b toks => exact keeps_argumentsFrom b toks

end Call

/-! ## What the readers do -/

/-- **What can come of a call**: some tokens are left, one of them is refused, or the bound on the depth
of the calls is used up. -/
inductive Place.Kept (a : Place) : Except ReadError (α × List Token) → Prop
  | ok {x : α} {rest : List Token} (h : a.Leaves rest) : Kept a (.ok (x, rest))
  | refused {e : ReadError} (h : Refuses a.tokens e) : Kept a (.error e)
  | tooDeep : Kept a (.error .tooDeep)

theorem Place.Kept.error_below {a b : Place} (h : b.Kept (α := β) (.error e)) (hbelow : Below a b) :
    a.Kept (α := α) (.error e) := by
  cases h with
  | refused h => exact .refused (h.of_takes hbelow.takes)
  | tooDeep => exact .tooDeep

/-- A plan that keeps to its place does so when it is run. -/
theorem Plan.Keeps.run {plan : Plan ε α} {a : Place} (h : plan.Keeps a)
    {read : (β : Type) → Call ε β → Except ReadError (β × List Token)}
    (hread : ∀ (β : Type) (c : Call ε β), c.place.Kept (read β c)) : a.Kept (plan.run read) := by
  induction h with
  | ok h => exact .ok h
  | error h _ => exact .refused h
  | @ask β c next hbelow hnext ih =>
    have hc := hread β c
    rw [Plan.run]
    cases hr : read β c with
    | error e =>
      rw [hr] at hc
      exact hc.error_below hbelow
    | ok r =>
      rw [hr] at hc
      cases hc with
      | ok hleaves => exact ih _ _ hleaves

namespace Call

/-- **A reader takes tokens off the front** and refuses one that it has come to, however deep it may
go. -/
theorem kept_read (n : Nat) (c : Call ε α) : c.place.Kept (c.read d n) := by
  induction n generalizing α with
  | zero =>
    rw [read_zero]
    exact .tooDeep
  | succ n ih =>
    rw [read_succ]
    exact (keeps_plan c).run fun β c' => ih c'

end Call

/-- **A call that a plan makes**, if the calls before it are answered. -/
inductive Plan.Asks (d : Dialect ε) (c : Call ε β) : Plan ε α → Prop
  | now {next : β → List Token → Plan ε α} : Asks d c (.ask c next)
  | later {γ : Type} {c' : Call ε γ} {next : γ → List Token → Plan ε α} {x : γ} {rest : List Token}
      {n : Nat} (hread : c'.read d n = .ok (x, rest)) (h : Asks d c (next x rest)) :
      Asks d c (.ask c' next)

/-- What a plan asks for is below it. -/
theorem Plan.Keeps.below_of_asks {plan : Plan ε α} {a : Place} {c : Call ε β} (h : plan.Keeps a)
    (hasks : plan.Asks d c) : Below a c.place := by
  induction hasks with
  | now =>
    cases h with
    | ask hbelow _ => exact hbelow
  | @later γ c' next x rest n hread _ ih =>
    cases h with
    | ask _ hnext =>
      have hkept := c'.kept_read (d := d) n
      rw [hread] at hkept
      cases hkept with
      | ok hleaves => exact ih (hnext x rest hleaves)

/-- A plan that is stopped for depth has been stopped in one of its calls. -/
theorem Plan.Keeps.exists_asks {plan : Plan ε α} {a : Place} (h : plan.Keeps a)
    {depth : (β : Type) → Call ε β → Nat}
    (hrun : plan.run (fun β c => c.read d (depth β c)) = .error .tooDeep) :
    ∃ (β : Type) (c : Call ε β), plan.Asks d c ∧ c.read d (depth β c) = .error .tooDeep := by
  induction h with
  | ok h => cases hrun
  | error h _ => exact absurd (Except.error.inj hrun) h.ne_tooDeep
  | @ask β c next _ _ ih =>
    rw [Plan.run] at hrun
    rcases bind_eq_error.mp hrun with hc | ⟨⟨x, rest⟩, hc, hrun⟩
    · exact ⟨β, c, .now, hc⟩
    · have hkept := c.kept_read (d := d) (depth β c)
      rw [hc] at hkept
      cases hkept with
      | ok hleaves =>
        obtain ⟨γ, c', hasks, hdeep⟩ := ih x rest hleaves hrun
        exact ⟨γ, c', .later hc hasks, hdeep⟩

/-- A plan is stopped for depth if one of its calls is. -/
theorem Plan.Asks.run {plan : Plan ε α} {c : Call ε β} (h : plan.Asks d c)
    (hdeep : c.read d n = .error .tooDeep) :
    plan.run (fun _ c => c.read d n) = .error .tooDeep := by
  induction h with
  | now =>
    rw [Plan.run]
    exact bind_eq_error.mpr (Or.inl hdeep)
  | @later γ c' next x rest m hread _ ih =>
    rw [Plan.run]
    by_cases hc' : c'.read d n = .error .tooDeep
    · exact bind_eq_error.mpr (Or.inl hc')
    · -- at whatever depth it is answered, the answer is the same
      have hsame : c'.read d n = .ok (x, rest) := by
        rcases Nat.le_total n m with hle | hle
        · rw [← Call.read_eq_of_le hle c' hc', hread]
        · rw [Call.read_eq_of_le hle c' (by simp [hread]), hread]
      exact bind_eq_error.mpr (Or.inr ⟨(x, rest), hsame, ih⟩)

namespace Call

/-- **Calls nest `n` deep** inside a call. -/
def Nested (d : Dialect ε) : Nat → {α : Type} → Call ε α → Prop
  | 0, _, _ => True
  | n + 1, _, c => ∃ (β : Type) (c' : Call ε β), (c.plan d).Asks d c' ∧ Nested d n c'

/-- **The bound on the depth is used up exactly by calls that nest as deep.** -/
theorem read_eq_tooDeep_iff (n : Nat) (c : Call ε α) :
    c.read d n = .error .tooDeep ↔ c.Nested d n := by
  induction n generalizing α with
  | zero => simp [read_zero, Nested]
  | succ n ih =>
    rw [read_succ, Nested]
    constructor
    · intro hrun
      obtain ⟨β, c', hasks, hdeep⟩ := (keeps_plan c).exists_asks hrun
      exact ⟨β, c', hasks, (ih c').mp hdeep⟩
    · rintro ⟨β, c', hasks, hnested⟩
      exact hasks.run ((ih c').mpr hnested)

/-- **Calls nest no deeper than the tokens allow.** -/
theorem Nested.le_weight {c : Call ε α} (h : c.Nested d n) : n ≤ c.place.weight := by
  induction n generalizing α with
  | zero => exact Nat.zero_le _
  | succ n ih =>
    obtain ⟨β, c', hasks, hnested⟩ := h
    have hlt := ((keeps_plan c).below_of_asks hasks).weight_lt
    exact Nat.lt_of_le_of_lt (ih hnested) hlt

theorem weight_lt_bound (c : Call ε α) : c.place.weight < bound c.tokens := by
  have hrank := c.procedure.rank_lt
  change 6 * c.tokens.length + c.procedure.rank < 6 * c.tokens.length + 6
  omega

/-- **The bound of a row of tokens is not used up.** -/
theorem read_bound_ne_tooDeep (c : Call ε α) : c.read d (bound c.tokens) ≠ .error .tooDeep := by
  intro hdeep
  have hle := ((read_eq_tooDeep_iff _ c).mp hdeep).le_weight
  exact absurd hle (Nat.not_le.mpr c.weight_lt_bound)

/-- **What comes of a call**, the readers going as deep as they need. -/
def result (d : Dialect ε) (c : Call ε α) : Except ReadError (α × List Token) := c.read d (bound c.tokens)

theorem read_eq_result (c : Call ε α) (h : c.read d n ≠ .error .tooDeep) : c.read d n = c.result d := by
  rcases Nat.le_total n (bound c.tokens) with hle | hle
  · exact (read_eq_of_le hle c h).symm
  · exact read_eq_of_le hle c c.read_bound_ne_tooDeep

/-- **A reader runs its plan with the results of its calls.** -/
theorem result_eq_run (c : Call ε α) : c.result d = (c.plan d).run fun _ c' => c'.result d := by
  have hsucc : c.result d = (c.plan d).run fun _ c' => c'.read d (6 * c.tokens.length + 5) := c.read_succ
  have hne := c.read_bound_ne_tooDeep (d := d)
  rw [hsucc]
  refine (Plan.run_eq_of_ne_tooDeep (fun β c' hc' => (c'.read_eq_result hc').symm) _ ?_).symm
  rw [← hsucc]
  exact hne

theorem run_plan_primary {read : (β : Type) → Call ε β → Except ReadError (β × List Token)}
    (hkind : (peek toks).kind = .number) (he : numeral false (peek toks) = .error e) :
    ((primary toks : Call ε ε).plan d).run read = .error e := by
  cases toks with
  | nil => cases hkind
  | cons t rest =>
    rw [peek_cons] at hkind he
    simp only [plan, hkind, Plan.run_after, he]
    rfl

theorem run_plan_unary {read : (β : Type) → Call ε β → Except ReadError (β × List Token)}
    (hop : prefixOp? (peek toks) = some .neg) (hkind : (peek toks.tail).kind = .number)
    (he : numeral true (peek toks.tail) = .error e) :
    ((unary toks : Call ε ε).plan d).run read = .error e := by
  simp only [plan, hop, hkind, and_self, if_true, Plan.run_after, he]
  rfl

/-- **A numeral that is not read** is what the call fails with. -/
theorem result_of_reads {c : Call ε α} {negative : Bool} (h : c.place.Reads negative t)
    (he : numeral negative t = .error e) : c.result d = .error e := by
  rw [result_eq_run]
  cases c with
  | primary toks =>
    cases h with
    | plain hkind => exact run_plan_primary hkind he
  | unary toks =>
    cases h with
    | signed hop hkind => exact run_plan_unary hop hkind he
  | expression | climb | arguments | argumentsFrom => cases h

end Call

/-- **What a call fails with**, the plan that asks for it fails with. -/
theorem Plan.Asks.run_eq_error {plan : Plan ε α} {c : Call ε β} (h : plan.Asks d c)
    (he : c.result d = .error e) : plan.run (fun _ c => c.result d) = .error e := by
  induction h with
  | now =>
    rw [Plan.run]
    exact bind_eq_error.mpr (Or.inl he)
  | @later γ c' next x rest m hread _ ih =>
    rw [Plan.run]
    have hok : c'.result d = .ok (x, rest) := (c'.read_eq_result (by simp [hread])).symm.trans hread
    exact bind_eq_error.mpr (Or.inr ⟨(x, rest), hok, ih⟩)

/-- **A plan that fails** has raised the error itself, or has it from one of its calls. -/
theorem Plan.Keeps.of_run_eq_error {plan : Plan ε α} {a : Place} (h : plan.Keeps a)
    (hrun : plan.run (fun _ c => c.result d) = .error e) :
    a.Raises e ∨ ∃ (β : Type) (c : Call ε β), plan.Asks d c ∧ c.result d = .error e := by
  induction h with
  | ok h => cases hrun
  | error h hraises =>
    cases hrun
    exact Or.inl hraises
  | @ask β c next _ _ ih =>
    rw [Plan.run] at hrun
    rcases bind_eq_error.mp hrun with hc | ⟨⟨x, rest⟩, hc, hrun⟩
    · exact Or.inr ⟨β, c, .now, hc⟩
    · have hkept := c.kept_read (d := d) (bound c.tokens)
      rw [show c.read d (bound c.tokens) = .ok (x, rest) from hc] at hkept
      cases hkept with
      | ok hleaves =>
        refine (ih x rest hleaves hrun).imp_right ?_
        rintro ⟨γ, c', hasks, he⟩
        exact ⟨γ, c', .later hc hasks, he⟩

end Straightline.Grammar
