import Straightline.Proofs.Descent
import Straightline.Proofs.Misspelling
import Straightline.Source.Parser
import Straightline.Target.Parser

/-!
# Every text is read, refused or given up

A parser of either language reads statement by statement up to the end, and calls the readers of
expressions inside.  A `Language` is what the two parsers differ in: the plan of a statement, and what
may stand between two statements.  Its laws say that a statement keeps to its place like the readers
do, so that a run of the whole parser moves from place to place (`Language.Moves`) with the tokens
running out on the way: it comes to an end, it does not pass the end of the text, and it comes back to
no procedure without having taken a token.

What comes of a text is then a program, an error of the grammar at a token, or, if the parser comes to
read a numeral of more digits than are converted, that and nothing else (`parse_total`).  A misspelt
numeral that is read is refused by either parser, and passed by neither.
-/

namespace Straightline.Grammar

open Relation

variable {ε σ : Type} {t : Token} {toks rest : List Token} {n m : Nat}

/-- **A language, as far as its parser goes.** -/
structure Language (ε σ : Type) where
  dialect : Dialect ε
  /-- What reading a statement takes. -/
  plan : List Token → Plan ε σ
  /-- Where the next statement begins, behind one, unless the program ends there. -/
  next : List Token → Except ReadError (Option (List Token))
  keeps_plan : ∀ toks, (plan toks).Keeps ⟨.statements, toks⟩
  takes_of_next : ∀ toks rest, next toks = .ok (some rest) → ReflTransGen Takes toks rest
  eof_of_next : ∀ toks, next toks = .ok none → (peek toks).kind = .eof
  error_of_next : ∀ toks e, next toks = .error e → ∃ error, e = .parse error ∧ StandsAt (peek toks) e

/-- **A place of a parser with all that is known there**: statements that are still to be read, or a call
of a reader. -/
inductive Site (ε : Type) : Type 1
  | statements (toks : List Token)
  | call {α : Type} (c : Call ε α)

/-- The procedure, and the tokens in front of it. -/
def Site.place : Site ε → Place
  | .statements toks => ⟨.statements, toks⟩
  | .call c => c.place

namespace Language

variable (L : Language ε σ)

/-- Reads a statement. -/
def statement (toks : List Token) : Except ReadError (σ × List Token) :=
  (L.plan toks).run fun _ c => c.result L.dialect

/-- Reads the statements up to the end, at most `n` of them. -/
def statements : Nat → List Token → Except ReadError (List σ)
  | 0, _ => .error .tooDeep
  | n + 1, toks =>
    if (peek toks).kind = .eof then .ok []
    else do
      let (s, rest) ← L.statement toks
      match ← L.next rest with
      | none => return [s]
      | some rest => do
        let more ← statements n rest
        return s :: more

/-- Reads a program. -/
def parse (s : String) : Except ReadError (List σ) := do
  let toks ← (tokenize s).mapError .lex
  L.statements (toks.length + 1) toks

/-- **A step of a run**: the parser calls a reader, a reader calls another one, or the parser goes on to
the next statement. -/
inductive Moves : Site ε → Site ε → Prop
  | enter {β : Type} {toks : List Token} {c : Call ε β} (hne : (peek toks).kind ≠ .eof)
      (h : (L.plan toks).Asks L.dialect c) : Moves (.statements toks) (.call c)
  | descend {α β : Type} {c : Call ε α} {c' : Call ε β} (h : (c.plan L.dialect).Asks L.dialect c') :
      Moves (.call c) (.call c')
  | next {toks rest rest' : List Token} {s : σ} (hne : (peek toks).kind ≠ .eof)
      (h : L.statement toks = .ok (s, rest)) (hnext : L.next rest = .ok (some rest')) :
      Moves (.statements toks) (.statements rest')

variable {L}

/-! ## Statements -/

/-- **A statement takes a token at least**, or is refused at one. -/
theorem statement_cases (L : Language ε σ) (toks : List Token) :
    (∃ s rest, L.statement toks = .ok (s, rest) ∧ TransGen Takes toks rest) ∨
      ∃ e, L.statement toks = .error e ∧ Refuses toks e := by
  have hkept : Place.Kept ⟨.statements, toks⟩ (L.statement toks) :=
    (L.keeps_plan toks).run fun β c => c.kept_read (bound c.tokens)
  generalize hr : L.statement toks = r at hkept
  cases hkept with
  | ok hleaves => exact Or.inl ⟨_, _, rfl, hleaves.takesSome rfl⟩
  | refused h => exact Or.inr ⟨_, rfl, h⟩
  | tooDeep =>
    -- the readers are called with a bound that they do not use up
    obtain ⟨β, c, -, hdeep⟩ := (L.keeps_plan toks).exists_asks hr
    exact absurd hdeep c.read_bound_ne_tooDeep

theorem takes_of_statement {s : σ} (h : L.statement toks = .ok (s, rest)) : TransGen Takes toks rest := by
  rcases L.statement_cases toks with ⟨s', rest', hok, htakes⟩ | ⟨e, herror, -⟩
  · obtain ⟨-, rfl⟩ := Prod.mk.inj (Except.ok.inj (h.symm.trans hok))
    exact htakes
  · rw [herror] at h
    cases h

section Loop

variable {s : σ} {rest' : List Token} {e : ReadError} (hne : (peek toks).kind ≠ .eof)
include hne

theorem statements_of_error (hs : L.statement toks = .error e) : L.statements (n + 1) toks = .error e := by
  rw [statements, if_neg hne, hs]
  rfl

theorem statements_of_refused (hs : L.statement toks = .ok (s, rest)) (hnext : L.next rest = .error e) :
    L.statements (n + 1) toks = .error e := by
  rw [statements, if_neg hne, hs]
  exact bind_eq_error.mpr (Or.inr ⟨_, rfl, bind_eq_error.mpr (Or.inl hnext)⟩)

theorem statements_of_last (hs : L.statement toks = .ok (s, rest)) (hnext : L.next rest = .ok none) :
    L.statements (n + 1) toks = .ok [s] := by
  rw [statements, if_neg hne, hs]
  exact bind_eq_ok.mpr ⟨_, rfl, bind_eq_ok.mpr ⟨_, hnext, rfl⟩⟩

theorem statements_of_next (hs : L.statement toks = .ok (s, rest))
    (hnext : L.next rest = .ok (some rest')) :
    L.statements (n + 1) toks = L.statements n rest' >>= fun more => .ok (s :: more) := by
  rw [statements, if_neg hne, hs]
  change (L.next rest >>= _) = _
  rw [hnext]
  rfl

end Loop

theorem takes_of_statement_next {s : σ} {rest' : List Token} (hs : L.statement toks = .ok (s, rest))
    (hnext : L.next rest = .ok (some rest')) : TransGen Takes toks rest' :=
  (takes_of_statement hs).trans_left (L.takes_of_next rest rest' hnext)

/-- **The statements are read up to the end**, or refused at a token, if there may be as many of them as
there are tokens. -/
theorem statements_cases (L : Language ε σ) (h : toks.length < n) :
    (∃ program row, L.statements n toks = .ok program ∧ ReflTransGen Takes toks row ∧
        (peek row).kind = .eof) ∨
      ∃ e, L.statements n toks = .error e ∧ Refuses toks e := by
  induction n generalizing toks with
  | zero => exact absurd h (Nat.not_lt_zero _)
  | succ n ih =>
    by_cases hne : (peek toks).kind = .eof
    · exact Or.inl ⟨[], toks, if_pos hne, .refl, hne⟩
    rcases L.statement_cases toks with ⟨s, rest, hs, htakes⟩ | ⟨e, he, hrefuses⟩
    · have hrest := htakes.to_reflTransGen
      cases hnext : L.next rest with
      | error e =>
        obtain ⟨error, -, hstands⟩ := L.error_of_next rest e hnext
        exact Or.inr ⟨e, statements_of_refused hne hs hnext, hstands.refuses.of_takes hrest⟩
      | ok follows =>
        cases follows with
        | none => exact Or.inl ⟨[s], rest, statements_of_last hne hs hnext, hrest, L.eof_of_next rest hnext⟩
        | some rest' =>
          have htakes' := takes_of_statement_next hs hnext
          have hlength := length_lt_of_takes htakes'
          rw [statements_of_next hne hs hnext]
          rcases ih (by omega : rest'.length < n) with ⟨more, row, hmore, hrow, hend⟩ | ⟨e, he, hrefuses⟩
          · rw [hmore]
            exact Or.inl ⟨s :: more, row, rfl, htakes'.to_reflTransGen.trans hrow, hend⟩
          · rw [he]
            exact Or.inr ⟨e, rfl, hrefuses.of_takes htakes'.to_reflTransGen⟩
    · exact Or.inr ⟨e, statements_of_error hne he, hrefuses⟩

/-- **How many statements there may be does not matter**, as long as there may be as many as tokens. -/
theorem statements_eq_of_lt (L : Language ε σ) (hn : toks.length < n) (hm : toks.length < m) :
    L.statements n toks = L.statements m toks := by
  induction n generalizing toks m with
  | zero => exact absurd hn (Nat.not_lt_zero _)
  | succ n ih =>
    obtain ⟨m, rfl⟩ : ∃ k, m = k + 1 := ⟨m - 1, by omega⟩
    by_cases hne : (peek toks).kind = .eof
    · rw [statements, statements, if_pos hne, if_pos hne]
    cases hs : L.statement toks with
    | error e => rw [statements_of_error hne hs, statements_of_error hne hs]
    | ok r =>
      obtain ⟨s, rest⟩ := r
      cases hnext : L.next rest with
      | error e => rw [statements_of_refused hne hs hnext, statements_of_refused hne hs hnext]
      | ok follows =>
        cases follows with
        | none => rw [statements_of_last hne hs hnext, statements_of_last hne hs hnext]
        | some rest' =>
          have hlength := length_lt_of_takes (takes_of_statement_next hs hnext)
          rw [statements_of_next hne hs hnext, statements_of_next hne hs hnext,
            ih (by omega : rest'.length < n) (by omega : rest'.length < m)]

/-! ## Runs -/

/-- **Every step leads to a place below.** -/
theorem Moves.below_place {a b : Site ε} (h : L.Moves a b) : Below a.place b.place := by
  cases h with
  | enter _ h => exact (L.keeps_plan _).below_of_asks h
  | descend h => exact (Call.keeps_plan _).below_of_asks h
  | next _ h hnext => exact Or.inl (takes_of_statement_next h hnext)

theorem below_of_moves {a b : Site ε} (h : TransGen L.Moves a b) : Below a.place b.place := by
  induction h with
  | single h => exact h.below_place
  | tail _ h ih => exact ih.trans h.below_place

theorem takes_of_moves {a b : Site ε} (h : ReflTransGen L.Moves a b) :
    ReflTransGen Takes a.place.tokens b.place.tokens := by
  rcases Relation.reflTransGen_iff_eq_or_transGen.mp h with rfl | h
  · exact .refl
  · exact (below_of_moves h).takes

/-- **No run goes on forever.** -/
theorem wellFounded_moves (L : Language ε σ) : WellFounded fun a b => L.Moves b a :=
  Subrelation.wf (fun h => h.below_place.weight_lt) (measure fun a : Site ε => a.place.weight).wf

/-! ## Errors -/

/-- **A site that fails**, however many statements there may be. -/
def Fails (L : Language ε σ) (e : ReadError) : Site ε → Prop
  | .statements toks => ∀ n, toks.length < n → L.statements n toks = .error e
  | .call c => c.result L.dialect = .error e

/-- **What a step leads to fails with, the step fails with.** -/
theorem Moves.fails {a b : Site ε} {e : ReadError} (h : L.Moves a b) (hb : L.Fails e b) :
    L.Fails e a := by
  cases h with
  | enter hne hasks =>
    intro n hn
    obtain ⟨n, rfl⟩ : ∃ k, n = k + 1 := ⟨n - 1, by omega⟩
    exact statements_of_error hne (hasks.run_eq_error hb)
  | descend hasks =>
    rw [Fails, Call.result_eq_run]
    exact hasks.run_eq_error hb
  | next hne hs hnext =>
    intro n hn
    obtain ⟨n, rfl⟩ : ∃ k, n = k + 1 := ⟨n - 1, by omega⟩
    have hlength := length_lt_of_takes (takes_of_statement_next hs hnext)
    rw [statements_of_next hne hs hnext, hb n (by omega)]
    rfl

theorem fails_of_moves {a b : Site ε} {e : ReadError} (h : ReflTransGen L.Moves a b)
    (hb : L.Fails e b) : L.Fails e a := by
  induction h using ReflTransGen.head_induction_on with
  | refl => exact hb
  | head h _ ih => exact h.fails ih

/-- **An error is raised where the run has come to.** -/
theorem exists_raises {e : ReadError} (a : Site ε) (h : L.Fails e a) :
    ∃ site, ReflTransGen L.Moves a site ∧ site.place.Raises e := by
  induction a using L.wellFounded_moves.induction with
  | _ a ih =>
    -- either the site itself raises the error, or it moves on to one that fails
    have hstep : a.place.Raises e ∨ ∃ b, L.Moves a b ∧ L.Fails e b := by
      cases a with
      | call c =>
        rw [Fails, Call.result_eq_run] at h
        refine ((Call.keeps_plan c).of_run_eq_error h).imp_right ?_
        rintro ⟨β, c', hasks, hc'⟩
        exact ⟨.call c', .descend hasks, hc'⟩
      | statements toks =>
        have htoks := h (toks.length + 1) (Nat.lt_succ_self _)
        by_cases hne : (peek toks).kind = .eof
        · rw [statements, if_pos hne] at htoks
          cases htoks
        cases hs : L.statement toks with
        | error e' =>
          obtain rfl := Except.error.inj ((statements_of_error hne hs).symm.trans htoks)
          refine ((L.keeps_plan toks).of_run_eq_error hs).imp_right ?_
          rintro ⟨β, c, hasks, hc⟩
          exact ⟨.call c, .enter hne hasks, hc⟩
        | ok r =>
          obtain ⟨s, rest⟩ := r
          cases hnext : L.next rest with
          | error e' =>
            obtain rfl := Except.error.inj ((statements_of_refused hne hs hnext).symm.trans htoks)
            obtain ⟨error, rfl, -⟩ := L.error_of_next rest _ hnext
            exact Or.inl (Place.raises_parse _ error)
          | ok follows =>
            cases follows with
            | none => cases (statements_of_last hne hs hnext).symm.trans htoks
            | some rest' =>
              refine Or.inr ⟨.statements rest', .next hne hs hnext, fun n hn => ?_⟩
              have hlength := length_lt_of_takes (takes_of_statement_next hs hnext)
              rw [statements_of_next hne hs hnext,
                L.statements_eq_of_lt (by omega : rest'.length < toks.length) hn] at htoks
              rcases bind_eq_error.mp htoks with herror | ⟨more, -, hok⟩
              · exact herror
              · cases hok
    rcases hstep with hraises | ⟨b, hmove, hb⟩
    · exact ⟨a, .refl, hraises⟩
    · obtain ⟨site, hmoves, hraises⟩ := ih b hmove hb
      exact ⟨site, .head hmove hmoves, hraises⟩

/-- A statement that asks for an expression which begins with a numeral comes to read it. -/
theorem moves_to_primary {least : Nat} (hne : (peek toks).kind ≠ .eof) (hkind : t.kind = .number)
    (h : (L.plan toks).Asks L.dialect (.expression least (t :: rest))) :
    ReflTransGen L.Moves (.statements toks) (.call (.primary (t :: rest) : Call ε ε)) := by
  have hunary : ((Call.expression least (t :: rest)).plan L.dialect).Asks L.dialect
      (.unary (t :: rest)) := .now
  have hprimary : ((Call.unary (t :: rest)).plan L.dialect).Asks L.dialect (.primary (t :: rest)) := by
    have hnone : prefixOp? (peek (t :: rest)) = none :=
      prefixOp?_of_kind (t := t) (by simp [hkind]) (by simp [hkind])
    rw [Call.plan, hnone]
    exact .now
  exact .head (.enter hne h) (.head (.descend hunary) (.single (.descend hprimary)))

/-! ## Texts -/

/-- **A parser is that of a language**: it reads statements by their plan and runs through them as the
language says, and the readers of expressions run their plans, too. -/
structure Describes (L : Language ε σ) (statement : List Token → Except ReadError (σ × List Token))
    (statements : Nat → List Token → Except ReadError (List σ)) : Prop where
  statement : ∀ toks, statement toks = (L.plan toks).run fun _ c => c.read L.dialect (bound c.tokens)
  statements : ∀ n toks, statements n toks = L.statements n toks
  readers : ∀ (α : Type) (c : Call ε α) n,
    c.read L.dialect (n + 1) = (c.plan L.dialect).run fun _ c' => c'.read L.dialect n

/-- **What a parser does with a text**, whatever it is. -/
structure Total (L : Language ε σ) (text : String) (outcome : Except ReadError (List σ)) : Prop where
  /-- A text that the lexer refuses is refused for that. -/
  lexed : ∀ e, tokenize text = .error e → outcome = .error (.lex e)
  /-- Any other text is read up to its end, refused at a token behind tokens that can be taken, or given
  up at an oversized numeral behind such tokens. -/
  parsed : ∀ toks, tokenize text = .ok toks →
    (∃ program stop, outcome = .ok program ∧ stop.kind = .eof ∧ ReflTransGen Takes toks [stop]) ∨
      (∃ error row, outcome = .error (.parse error) ∧ ReflTransGen Takes toks row ∧ peek row ∈ toks ∧
        StandsAt (peek row) (.parse error)) ∨
      ∃ n row, outcome = .error (.oversized n) ∧ ReflTransGen Takes toks row ∧ peek row ∈ toks ∧
        (peek row).kind = .number ∧ Number.Oversized (peek row).text.toList n
  /-- It is given up exactly if the parser comes to read an oversized numeral. -/
  oversized : ∀ toks n, tokenize text = .ok toks →
    (outcome = .error (.oversized n) ↔ ∃ site negative t,
      ReflTransGen L.Moves (.statements toks) site ∧ site.place.Reads negative t ∧
        Number.Oversized t.text.toList n)
  /-- A misspelt numeral that the parser comes to read is what the text is refused for. -/
  misspelt : ∀ toks site negative t, tokenize text = .ok toks →
    ReflTransGen L.Moves (.statements toks) site → site.place.Reads negative t →
      Number.Misspelt t.text.toList → ∃ error, outcome = .error (.parse (.number error t.position))
  /-- A numeral is read, refused or given up for how it is spelled, with a sign before it or not. -/
  numerals : ∀ toks t negative, tokenize text = .ok toks → t ∈ toks → t.kind = .number →
    ((∃ v, numeral negative t = .ok v) ↔
        ¬ Number.Misspelt t.text.toList ∧ ¬ ∃ n, Number.Oversized t.text.toList n) ∧
      ((∃ error, numeral negative t = .error (.parse (.number error t.position))) ↔
        Number.Misspelt t.text.toList) ∧
      ∀ n, numeral negative t = .error (.oversized n) ↔ Number.Oversized t.text.toList n
  /-- The parser passes no numeral that is not read. -/
  passed : ∀ toks before t behind, tokenize text = .ok toks → toks = before ++ t :: behind →
    t.kind = .number → (Number.Misspelt t.text.toList ∨ ∃ n, Number.Oversized t.text.toList n) →
      ∃ e row, outcome = .error e ∧ t :: behind <:+ row ∧ row <:+ toks ∧ StandsAt (peek row) e
  /-- Wherever the parser is, the end of the text is still before it. -/
  cursor : ∀ toks site, tokenize text = .ok toks → ReflTransGen L.Moves (.statements toks) site →
    Ended site.place.tokens ∧ site.place.tokens <:+ toks
  /-- It comes back to a procedure only with fewer tokens before it. -/
  progress : ∀ a b, TransGen L.Moves a b → b.place.procedure = a.place.procedure →
    b.place.tokens.length < a.place.tokens.length
  /-- It does not run forever. -/
  terminates : WellFounded fun a b => L.Moves b a
  /-- No bound on the number of statements makes a difference, if there may be as many as tokens. -/
  statements : ∀ toks n, tokenize text = .ok toks → toks.length < n → outcome = L.statements n toks
  /-- A bound on the depth of the calls is used up exactly if they nest as deep, and they nest no deeper
  than the tokens allow. -/
  depth : ∀ (α : Type) (c : Call ε α) n,
    (c.read L.dialect n = .error .tooDeep ↔ c.Nested L.dialect n) ∧
      (c.Nested L.dialect n → n ≤ 6 * c.tokens.length + 5)

end Language

theorem ended_of_tokenize {text : String} (h : tokenize text = .ok toks) : Ended toks := by
  obtain ⟨body, q, rfl, hbody⟩ := Lexer.scanned_of_tokensFrom h
  exact ⟨body, _, rfl, rfl, fun t ht => (hbody t ht).kind_ne_eof⟩

theorem scanned_of_tokenize {text : String} (h : tokenize text = .ok toks) (ht : t ∈ toks)
    (hkind : t.kind ≠ .eof) : Lexer.Scanned t := by
  obtain ⟨body, q, rfl, hbody⟩ := Lexer.scanned_of_tokensFrom h
  rcases List.mem_append.mp ht with ht | ht
  · exact hbody t ht
  · exact absurd (congrArg Token.kind (List.mem_singleton.mp ht)) hkind

theorem Place.Reads.kind_eq {a : Place} {negative : Bool} (h : a.Reads negative t) :
    t.kind = .number := by
  cases h with
  | plain hkind | signed _ hkind => exact hkind

theorem Place.Reads.mem {a : Place} {negative : Bool} (h : a.Reads negative t) : t ∈ a.tokens := by
  have hpeek : ∀ toks : List Token, (peek toks).kind = .number → peek toks ∈ toks := by
    intro toks hkind
    cases toks with
    | nil => cases hkind
    | cons t rest => exact List.mem_cons_self
  cases h with
  | plain hkind => exact hpeek _ hkind
  | signed _ hkind => exact List.mem_of_mem_tail (hpeek _ hkind)

/-- A numeral that is not read cannot be taken. -/
theorem not_acceptable_of_unread (h : Lexer.Scanned t) (hkind : t.kind = .number)
    (hunread : Number.Misspelt t.text.toList ∨ ∃ n, Number.Oversized t.text.toList n) :
    ¬ Acceptable t := by
  intro ht
  obtain ⟨negative, hv⟩ := ht.numeral hkind
  obtain ⟨hspelt, hshort⟩ := (numeral_iff h hkind negative).1.mp hv
  exact hunread.elim hspelt hshort

/-- **What an error at a token of a text can be**: the grammar's, or that of an oversized numeral. -/
theorem StandsAt.cases {e : ReadError} (h : StandsAt t e)
    (hscanned : t.kind = .number → Lexer.Scanned t) :
    (∃ error, e = .parse error) ∨
      ∃ n, e = .oversized n ∧ t.kind = .number ∧ Number.Oversized t.text.toList n := by
  cases h with
  | expected what => exact Or.inl ⟨_, rfl⟩
  | unexpected => exact Or.inl ⟨_, rfl⟩
  | @number negative _ hkind he =>
    obtain ⟨error, -, rfl⟩ := mapError_eq_error.mp he
    cases error with
    | format error => exact Or.inl ⟨_, rfl⟩
    | oversized n =>
      exact Or.inr ⟨n, rfl, hkind, ((numeral_iff (hscanned hkind) hkind negative).2.2 n).mp he⟩

namespace Language

variable {text : String}

theorem parse_of_error {e : LexError} (L : Language ε σ) (h : tokenize text = .error e) :
    L.parse text = .error (.lex e) := by
  rw [parse, h]
  rfl

theorem parse_of_ok (L : Language ε σ) (h : tokenize text = .ok toks) :
    L.parse text = L.statements (toks.length + 1) toks := by
  rw [parse, h]
  rfl

/-- The tokens of a text are read up to the end, or there is an error at one of them. -/
theorem parse_cases (L : Language ε σ) (h : tokenize text = .ok toks) :
    (∃ program stop, L.parse text = .ok program ∧ stop.kind = .eof ∧ ReflTransGen Takes toks [stop]) ∨
      ∃ e row, L.parse text = .error e ∧ ReflTransGen Takes toks row ∧ peek row ∈ toks ∧
        StandsAt (peek row) e := by
  have hended := ended_of_tokenize h
  rw [parse_of_ok L h]
  rcases L.statements_cases (Nat.lt_succ_self toks.length) with
    ⟨program, row, hok, hrow, hend⟩ | ⟨e, herror, row, hrow, hstands⟩
  · obtain ⟨stop, rfl⟩ := (hended.of_takes hrow).eq_singleton hend
    exact Or.inl ⟨program, stop, hok, hend, hrow⟩
  · have hmem := (suffix_of_takes hrow).mem (hended.of_takes hrow).peek_mem
    exact Or.inr ⟨e, row, herror, hrow, hmem, hstands⟩

/-- **A token that cannot be taken is where a text ends in error**, unless it does so before. -/
theorem parse_of_not_acceptable {behind : List Token} (L : Language ε σ)
    (h : tokenize text = .ok toks) (ht : ¬ Acceptable t) (hkind : t.kind ≠ .eof)
    (hsuffix : t :: behind <:+ toks) :
    ∃ e row, L.parse text = .error e ∧ t :: behind <:+ row ∧ row <:+ toks ∧ StandsAt (peek row) e := by
  rcases L.parse_cases h with ⟨program, stop, -, hend, hrow⟩ | ⟨e, row, herror, hrow, -, hstands⟩
  · -- a program would have taken all tokens but the end
    have hmem := (suffix_of_not_acceptable ht hsuffix hrow).mem List.mem_cons_self
    exact absurd (List.mem_singleton.mp hmem ▸ hend) hkind
  · exact ⟨e, row, herror, suffix_of_not_acceptable ht hsuffix hrow, suffix_of_takes hrow, hstands⟩

/-- A numeral that the parser comes to read is one of the text. -/
theorem scanned_of_reads {L : Language ε σ} {site : Site ε} {negative : Bool}
    (h : tokenize text = .ok toks) (hmoves : ReflTransGen L.Moves (.statements toks) site)
    (hreads : site.place.Reads negative t) : Lexer.Scanned t := by
  have hmem := (suffix_of_takes (takes_of_moves hmoves)).mem hreads.mem
  exact scanned_of_tokenize h hmem (by simp [hreads.kind_eq])

/-- **A numeral that the parser comes to and cannot read** is what becomes of the text. -/
theorem parse_of_reads {L : Language ε σ} {site : Site ε} {negative : Bool} {e : ReadError}
    (h : tokenize text = .ok toks) (hmoves : ReflTransGen L.Moves (.statements toks) site)
    (hreads : site.place.Reads negative t) (he : numeral negative t = .error e) :
    L.parse text = .error e := by
  have hfails : L.Fails e site := by
    cases site with
    | statements row => cases hreads
    | call c => exact Call.result_of_reads hreads he
  rw [L.parse_of_ok h]
  exact fails_of_moves hmoves hfails _ (Nat.lt_succ_self _)

/-- **A text is given up exactly for an oversized numeral** that the parser comes to read. -/
theorem parse_eq_oversized_iff (L : Language ε σ) (h : tokenize text = .ok toks) (n : Nat) :
    L.parse text = .error (.oversized n) ↔ ∃ site negative t,
      ReflTransGen L.Moves (.statements toks) site ∧ site.place.Reads negative t ∧
        Number.Oversized t.text.toList n := by
  constructor
  · intro herror
    have hfails : L.Fails (.oversized n) (.statements toks) := by
      intro m hm
      rw [← herror, L.parse_of_ok h, L.statements_eq_of_lt hm (Nat.lt_succ_self _)]
    obtain ⟨site, hmoves, ⟨error, heq⟩ | ⟨negative, t, hreads, he⟩⟩ := exists_raises _ hfails
    · cases heq
    · have hscanned := scanned_of_reads h hmoves hreads
      exact ⟨site, negative, t, hmoves, hreads,
        ((numeral_iff hscanned hreads.kind_eq negative).2.2 n).mp he⟩
  · rintro ⟨site, negative, t, hmoves, hreads, hover⟩
    have hscanned := scanned_of_reads h hmoves hreads
    exact parse_of_reads h hmoves hreads
      (((numeral_iff hscanned hreads.kind_eq negative).2.2 n).mpr hover)

/-- **A text is given up for its first expression**, if that is a row of too many digits. -/
theorem parse_digits {L : Language ε σ} {cs ds : List Char} (hscan : Lexer.Scans .start cs toks ds)
    (hne : ∀ rest, (peek (toks ++ rest)).kind ≠ .eof)
    (hasks : ∀ rest, (L.plan (toks ++ rest)).Asks L.dialect (.expression 0 rest))
    (hdigits : ∀ c ∈ ds, c.isDigit = true) (hlong : Number.digitLimit < ds.length) :
    L.parse (String.ofList (cs ++ ds)) = .error (.oversized ds.length) := by
  have hcons : ds ≠ [] := List.ne_nil_of_length_pos (Nat.zero_lt_of_lt hlong)
  rw [← List.append_nil ds] at hscan
  obtain ⟨q, htokens⟩ := (hscan.append (Lexer.scans_digits hcons hdigits Lexer.breaks_nil)).tokenize
  rw [List.append_assoc] at htokens
  have hfirst := hasks [⟨.number, String.ofList ds, Position.start.advance cs⟩, ⟨.eof, "", q⟩]
  have hmoves := moves_to_primary (hne _) rfl hfirst
  have hover : Number.Oversized (String.ofList ds).toList ds.length := by
    rw [String.toList_ofList]
    exact Number.oversized_digits hdigits hlong
  exact (L.parse_eq_oversized_iff htokens ds.length).mpr ⟨_, false, _, hmoves, .plain rfl, hover⟩

/-- **A parser that keeps to its places is total.** -/
theorem total_parse (L : Language ε σ) (text : String) : L.Total text (L.parse text) where
  lexed e h := L.parse_of_error h
  parsed toks h := by
    rcases L.parse_cases h with hread | ⟨e, row, herror, hrow, hmem, hstands⟩
    · exact Or.inl hread
    · have hscanned : (peek row).kind = .number → Lexer.Scanned (peek row) :=
        fun hkind => scanned_of_tokenize h hmem (by simp [hkind])
      rcases hstands.cases hscanned with ⟨error, rfl⟩ | ⟨n, rfl, hkind, hover⟩
      · exact Or.inr (Or.inl ⟨error, row, herror, hrow, hmem, hstands⟩)
      · exact Or.inr (Or.inr ⟨n, row, herror, hrow, hmem, hkind, hover⟩)
  oversized toks n h := L.parse_eq_oversized_iff h n
  misspelt toks site negative t h hmoves hreads hmisspelt := by
    have hscanned := scanned_of_reads h hmoves hreads
    obtain ⟨error, he⟩ := (numeral_iff hscanned hreads.kind_eq negative).2.1.mpr hmisspelt
    exact ⟨error, parse_of_reads h hmoves hreads he⟩
  numerals toks t negative h hmem hkind :=
    numeral_iff (scanned_of_tokenize h hmem (by simp [hkind])) hkind negative
  passed toks before t behind h htoks hkind hunread := by
    have hmem : t ∈ toks := htoks ▸ List.mem_append_right _ List.mem_cons_self
    have hne : t.kind ≠ .eof := by simp [hkind]
    have hscanned := scanned_of_tokenize h hmem hne
    exact L.parse_of_not_acceptable h (not_acceptable_of_unread hscanned hkind hunread) hne
      ⟨before, htoks.symm⟩
  cursor toks site h hmoves := by
    have hrow := takes_of_moves hmoves
    exact ⟨(ended_of_tokenize h).of_takes hrow, suffix_of_takes hrow⟩
  progress a b hmoves heq := (below_of_moves hmoves).length_lt heq
  terminates := L.wellFounded_moves
  statements toks n h hn := by
    rw [L.parse_of_ok h, L.statements_eq_of_lt (Nat.lt_succ_self _) hn]
  depth α c n := by
    refine ⟨Call.read_eq_tooDeep_iff n c, fun hnested => ?_⟩
    exact Nat.le_of_lt_succ (Nat.lt_of_le_of_lt hnested.le_weight c.weight_lt_bound)

end Language

end Straightline.Grammar

/-! ## The source language -/

namespace Straightline.Source

open Relation Grammar

namespace Parser

variable {toks rest : List Token} {a : Place} {e : ReadError}

/-- Each parameter behind the first takes a comma and a name. -/
theorem moreParams_cases (toks : List Token) :
    (∃ names rest, moreParams toks = .ok (names, rest) ∧ ReflTransGen Takes toks rest ∧
        toks.length = rest.length + 2 * names.length) ∨
      ∃ error, moreParams toks = .error (.parse error) ∧ Refuses toks (.parse error) := by
  induction toks using moreParams.induct with
  | case1 comma t rest hcomma hname ih =>
    have htakes : ReflTransGen Takes (comma :: t :: rest) rest :=
      .head (takes_of_kind hcomma rfl)
        (.single (takes_of_kind hname rfl))
    rw [moreParams, if_pos hcomma, if_pos hname]
    rcases ih with ⟨names, rest', hok, htakes', hlength⟩ | ⟨e, herror, hrefuses⟩
    · rw [hok]
      refine Or.inl ⟨t.text :: names, rest', rfl, htakes.trans htakes', ?_⟩
      simp only [List.length_cons, hlength]
      omega
    · rw [herror]
      exact Or.inr ⟨e, rfl, hrefuses.of_takes htakes⟩
  | case2 comma t rest hcomma hname =>
    have hstands : StandsAt (peek (t :: rest)) (.parse (.expected .param t)) := .expected _
    rw [moreParams, if_pos hcomma, if_neg hname]
    exact Or.inr ⟨_, rfl, hstands.refuses.of_takes (.single (takes_of_kind hcomma rfl))⟩
  | case3 comma t rest hcomma =>
    rw [moreParams, if_neg hcomma]
    exact Or.inl ⟨[], _, rfl, .refl, rfl⟩
  | case4 t hcomma =>
    have hstands : StandsAt (peek []) (.parse (.expected .param nothing)) := .expected _
    rw [moreParams, if_pos hcomma]
    exact Or.inr ⟨_, rfl, hstands.refuses.of_takes (.single (takes_of_kind hcomma rfl))⟩
  | case5 t hcomma =>
    rw [moreParams, if_neg hcomma]
    exact Or.inl ⟨[], _, rfl, .refl, rfl⟩
  | case6 => exact Or.inl ⟨[], _, rfl, .refl, rfl⟩

theorem length_of_moreParams {names : List String} (h : moreParams toks = .ok (names, rest)) :
    toks.length = rest.length + 2 * names.length := by
  rcases moreParams_cases toks with ⟨names', rest', hok, -, hlength⟩ | ⟨e, herror, -⟩
  · obtain ⟨rfl, rfl⟩ := Prod.mk.inj (Except.ok.inj (h.symm.trans hok))
    exact hlength
  · rw [herror] at h
    cases h

theorem params_cases (toks : List Token) :
    (∃ names rest, params toks = .ok (names, rest) ∧ ReflTransGen Takes toks rest) ∨
      ∃ error, params toks = .error (.parse error) ∧ Refuses toks (.parse error) := by
  cases toks with
  | nil => exact Or.inl ⟨[], [], rfl, .refl⟩
  | cons t rest =>
    rw [params]
    split
    · rename_i hname
      have ht : Takes (t :: rest) rest := takes_of_kind hname rfl
      rcases moreParams_cases rest with ⟨names, rest', hok, htakes, -⟩ | ⟨e, herror, hrefuses⟩
      · rw [hok]
        exact Or.inl ⟨t.text :: names, rest', rfl, .head ht htakes⟩
      · rw [herror]
        exact Or.inr ⟨e, rfl, hrefuses.of_takes (.single ht)⟩
    · exact Or.inl ⟨[], _, rfl, .refl⟩

/-- What reading a definition takes. -/
def definitionPlan (toks : List Token) : Plan Expr Stmt :=
  .after (expect .ident .functionName toks) fun (name, rest) =>
  .after (expect .lparen .openParen rest) fun (_, rest) =>
  .after (params rest) fun (names, rest) =>
  .after (expect .rparen .closeParen rest) fun (_, rest) =>
  .after (expect .assign .equals rest) fun (_, rest) =>
  .ask (.expression 0 rest) fun body rest => .answer (.ok (.define name.text names body, rest))

/-- What reading a binding takes. -/
def bindingPlan (toks : List Token) : Plan Expr Stmt :=
  .after (expect .ident .variableName toks) fun (name, rest) =>
  .after (expect .assign .equals rest) fun (_, rest) =>
  .ask (.expression 0 rest) fun e rest => .answer (.ok (.letVar name.text e, rest))

/-- What reading a name takes, with the statement that is made of it. -/
def namePlan (stmt : String → Stmt) (toks : List Token) : Plan Expr Stmt :=
  .after (expect .ident .variableName toks) fun (name, rest) => .answer (.ok (stmt name.text, rest))

/-- What reading a statement takes. -/
def statementPlan (toks : List Token) : Plan Expr Stmt :=
  if (peek toks).kind = .ident ∧ (peek toks).text = "import" then namePlan .importVar toks.tail
  else if (peek toks).kind = .ident ∧ (peek toks).text = "define" then definitionPlan toks.tail
  else if (peek toks).kind = .ident ∧ (peek toks).text = "let" then bindingPlan toks.tail
  else if (peek toks).kind = .ident ∧ (peek toks).text = "export" then namePlan .exportVar toks.tail
  else .answer (.error (.parse (.expected .statement (peek toks))))

/-- Behind some parameters. -/
theorem keeps_params {next : List String × List Token → Plan Expr Stmt}
    (h : TransGen Takes a.tokens toks)
    (hnext : ∀ names rest, TransGen Takes a.tokens rest → (next (names, rest)).Keeps a) :
    (Plan.after (params toks) next).Keeps a := by
  rcases params_cases toks with ⟨names, rest, hok, htakes⟩ | ⟨e, herror, hrefuses⟩
  · rw [hok]
    exact hnext names rest (h.trans_left htakes)
  · rw [herror]
    exact .error (hrefuses.of_takes h.to_reflTransGen) (a.raises_parse e)

theorem keeps_definition (h : TransGen Takes a.tokens toks) : (definitionPlan toks).Keeps a := by
  refine .expect rfl h.to_reflTransGen fun name rest hname => ?_
  have h := h.tail hname
  refine .expect rfl h.to_reflTransGen fun _ rest hopen => ?_
  have h := h.tail hopen
  refine keeps_params h fun names rest h => ?_
  refine .expect rfl h.to_reflTransGen fun _ rest hclose => ?_
  have h := h.tail hclose
  refine .expect rfl h.to_reflTransGen fun _ rest hequals => ?_
  have h := h.tail hequals
  refine .ask (Or.inl h) fun body rest hbody => ?_
  exact .ok (.of_takes (h.trans_left hbody.takes))

theorem keeps_binding (h : TransGen Takes a.tokens toks) : (bindingPlan toks).Keeps a := by
  refine .expect rfl h.to_reflTransGen fun name rest hname => ?_
  have h := h.tail hname
  refine .expect rfl h.to_reflTransGen fun _ rest hequals => ?_
  have h := h.tail hequals
  refine .ask (Or.inl h) fun e rest he => ?_
  exact .ok (.of_takes (h.trans_left he.takes))

theorem keeps_name (stmt : String → Stmt) (h : TransGen Takes a.tokens toks) :
    (namePlan stmt toks).Keeps a := by
  refine .expect rfl h.to_reflTransGen fun name rest hname => ?_
  exact .ok (.of_takes (h.tail hname))

theorem keeps_statement (toks : List Token) : (statementPlan toks).Keeps ⟨.statements, toks⟩ := by
  have hword : (peek toks).kind = .ident → TransGen Takes toks toks.tail :=
    fun hkind => .single (takes_tail_of_kind hkind rfl)
  unfold statementPlan
  split
  · rename_i hkind
    exact keeps_name _ (hword hkind.1)
  split
  · rename_i hkind
    exact keeps_definition (hword hkind.1)
  split
  · rename_i hkind
    exact keeps_binding (hword hkind.1)
  split
  · rename_i hkind
    exact keeps_name _ (hword hkind.1)
  · have hstands : StandsAt (peek toks) (.parse (.expected .statement (peek toks))) := .expected _
    exact .error hstands.refuses (Place.raises_parse _ _)

/-- What stands behind a statement: a semicolon, or the end. -/
def next (toks : List Token) : Except ReadError (Option (List Token)) :=
  if (peek toks).kind = .semi then .ok (some toks.tail)
  else if (peek toks).kind = .eof then .ok none
  else .error (.parse (.expected .semicolon (peek toks)))

theorem next_cases (toks : List Token) :
    (next toks = .ok (some toks.tail) ∧ Takes toks toks.tail) ∨
      (next toks = .ok none ∧ (peek toks).kind = .eof) ∨
      next toks = .error (.parse (.expected .semicolon (peek toks))) := by
  unfold next
  split
  · rename_i hsemi
    exact Or.inl ⟨rfl, takes_tail_of_kind hsemi rfl⟩
  split
  · rename_i hend
    exact Or.inr (Or.inl ⟨rfl, hend⟩)
  · exact Or.inr (Or.inr rfl)

end Parser

/-- **The source language.** -/
def language : Language Expr Stmt where
  dialect := dialect
  plan := Parser.statementPlan
  next := Parser.next
  keeps_plan := Parser.keeps_statement
  takes_of_next toks rest h := by
    rcases Parser.next_cases toks with ⟨hok, htakes⟩ | ⟨hok, -⟩ | herror
    · obtain rfl := Option.some.inj (Except.ok.inj (hok.symm.trans h))
      exact .single htakes
    · exact absurd (hok.symm.trans h) (by simp)
    · exact absurd (herror.symm.trans h) (by simp)
  eof_of_next toks h := by
    rcases Parser.next_cases toks with ⟨hok, -⟩ | ⟨-, hend⟩ | herror
    · exact absurd (hok.symm.trans h) (by simp)
    · exact hend
    · exact absurd (herror.symm.trans h) (by simp)
  error_of_next toks e h := by
    rcases Parser.next_cases toks with ⟨hok, -⟩ | ⟨hok, -⟩ | herror
    · exact absurd (hok.symm.trans h) (by simp)
    · exact absurd (hok.symm.trans h) (by simp)
    · obtain rfl := Except.error.inj (herror.symm.trans h)
      exact ⟨_, rfl, .expected _⟩

namespace Parser

theorem definition_eq_run (toks : List Token) :
    definition toks = (definitionPlan toks).run fun _ c => c.read dialect (bound c.tokens) := by
  refine Plan.bind_eq_run_after fun ⟨name, rest⟩ => ?_
  refine Plan.bind_eq_run_after fun ⟨_, rest⟩ => ?_
  refine Plan.bind_eq_run_after fun ⟨names, rest⟩ => ?_
  refine Plan.bind_eq_run_after fun ⟨_, rest⟩ => ?_
  refine Plan.bind_eq_run_after fun ⟨_, rest⟩ => ?_
  rfl

theorem binding_eq_run (toks : List Token) :
    binding toks = (bindingPlan toks).run fun _ c => c.read dialect (bound c.tokens) := by
  refine Plan.bind_eq_run_after fun ⟨name, rest⟩ => ?_
  refine Plan.bind_eq_run_after fun ⟨_, rest⟩ => ?_
  rfl

theorem statement_eq (toks : List Token) : statement toks = language.statement toks := by
  change _ = (statementPlan toks).run fun _ c => c.read dialect (bound c.tokens)
  unfold statement statementPlan
  dsimp only
  split
  · exact Plan.bind_eq_run_after fun ⟨name, rest⟩ => rfl
  split
  · exact definition_eq_run _
  split
  · exact binding_eq_run _
  split
  · exact Plan.bind_eq_run_after fun ⟨name, rest⟩ => rfl
  · rfl

theorem statements_eq (n : Nat) (toks : List Token) :
    statements n toks = language.statements n toks := by
  induction n generalizing toks with
  | zero => rfl
  | succ n ih =>
    rw [statements, Language.statements]
    split
    · rfl
    · rw [statement_eq]
      refine bind_congr fun ⟨s, rest⟩ => ?_
      change _ = Parser.next rest >>= _
      by_cases hsemi : (peek rest).kind = .semi
      · simp only [next, if_pos hsemi, ih]
        rfl
      by_cases hend : (peek rest).kind = .eof
      · simp only [next, if_neg hsemi, if_pos hend]
        rfl
      · simp only [next, if_neg hsemi, if_neg hend]
        rfl

end Parser

theorem parse_eq (text : String) : parse text = language.parse text := by
  refine bind_congr fun toks => ?_
  rw [Parser.program, Parser.statements_eq]

/-- A binding of a name to too many digits. -/
theorem parse_letVar_digits {x : String} {ds : List Char} (hname : IsName x)
    (hdigits : ∀ c ∈ ds, c.isDigit = true) (hlong : Number.digitLimit < ds.length) :
    parse (String.ofList ("let".toList ++ [' '] ++ (x.toList ++ " = ".toList) ++ ds)) =
      .error (.oversized ds.length) := by
  have hrest : Lexer.Breaks (" = ".toList ++ ds) := Lexer.breaks_cons (by decide) (by decide)
  obtain ⟨⟨_, text, q⟩, rfl, hequals⟩ :=
    scans_equals ((Position.start.advance ("let".toList ++ [' '])).advance x.toList) ds
  rw [parse_eq]
  exact language.parse_digits ((scans_word "let" (by decide)).append ((hname.scans hrest).append hequals))
    (fun _ => by simp [peek]) (fun _ => .now) hdigits hlong

end Straightline.Source

/-! ## The target language -/

namespace Straightline.Target

open Relation Grammar

namespace Parser

/-- What reading an assignment takes. -/
def statementPlan (toks : List Token) : Plan Expr Stmt :=
  .after (expect .ident .target toks) fun (target, rest) =>
  .after (expect .assign .equals rest) fun (_, rest) =>
  .ask (.expression 0 rest) fun e rest => .answer (.ok (.assign target.text e, rest))

theorem keeps_statement (toks : List Token) : (statementPlan toks).Keeps ⟨.statements, toks⟩ := by
  refine .expect rfl .refl fun target rest htarget => ?_
  have h : TransGen Takes toks rest := .single htarget
  refine .expect rfl h.to_reflTransGen fun _ rest hequals => ?_
  have h := h.tail hequals
  refine .ask (Or.inl h) fun e rest he => ?_
  exact .ok (.of_takes (h.trans_left he.takes))

end Parser

/-- **The target language**, whose statements are not parted. -/
def language : Language Expr Stmt where
  dialect := dialect
  plan := Parser.statementPlan
  next toks := .ok (some toks)
  keeps_plan := Parser.keeps_statement
  takes_of_next toks rest h := by
    obtain rfl := Option.some.inj (Except.ok.inj h)
    exact .refl
  eof_of_next toks h := by cases h
  error_of_next toks e h := by cases h

namespace Parser

theorem statement_eq (toks : List Token) : statement toks = language.statement toks := by
  refine Plan.bind_eq_run_after fun ⟨target, rest⟩ => ?_
  refine Plan.bind_eq_run_after fun ⟨_, rest⟩ => ?_
  rfl

theorem statements_eq (n : Nat) (toks : List Token) :
    statements n toks = language.statements n toks := by
  induction n generalizing toks with
  | zero => rfl
  | succ n ih =>
    rw [statements, Language.statements]
    split
    · rfl
    · rw [statement_eq]
      refine bind_congr fun ⟨s, rest⟩ => ?_
      simp only [ih]
      rfl

end Parser

theorem parse_eq (text : String) : parse text = language.parse text := by
  refine bind_congr fun toks => ?_
  rw [Parser.program, Parser.statements_eq]

/-- An assignment of too many digits. -/
theorem parse_assign_digits {x : String} {ds : List Char} (hname : IsName x)
    (hdigits : ∀ c ∈ ds, c.isDigit = true) (hlong : Number.digitLimit < ds.length) :
    parse (String.ofList (x.toList ++ " = ".toList ++ ds)) = .error (.oversized ds.length) := by
  have hrest : Lexer.Breaks (" = ".toList ++ ds) := Lexer.breaks_cons (by decide) (by decide)
  obtain ⟨⟨_, text, q⟩, rfl, hequals⟩ := scans_equals (Position.start.advance x.toList) ds
  rw [parse_eq]
  exact language.parse_digits ((hname.scans hrest).append hequals)
    (fun _ => by simp [peek]) (fun _ => .now) hdigits hlong

end Straightline.Target

namespace Straightline

open Grammar

/-- **Both parsers are total**: each does what its language says, and that comes to an end on every
text, with an error of the lexer or of the grammar if not with a program, unless a numeral of too many
digits is read.  Besides the loops of the language there is one over parameters, each of which takes two
tokens. -/
theorem parse_total (text : String) :
    (Source.language.Describes Source.Parser.statement Source.Parser.statements ∧
      Source.language.Total text (Source.parse text) ∧
      ∀ toks names rest, Source.Parser.moreParams toks = .ok (names, rest) →
        toks.length = rest.length + 2 * names.length) ∧
    Target.language.Describes Target.Parser.statement Target.Parser.statements ∧
      Target.language.Total text (Target.parse text) := by
  rw [Source.parse_eq, Target.parse_eq]
  refine ⟨⟨⟨Source.Parser.statement_eq, Source.Parser.statements_eq, fun _ c _ => c.read_succ⟩,
    Source.language.total_parse text, fun _ _ _ => Source.Parser.length_of_moreParams⟩,
    ⟨Target.Parser.statement_eq, Target.Parser.statements_eq, fun _ c _ => c.read_succ⟩,
    Target.language.total_parse text⟩

/-- A numeral that ends in its point, with another one behind it that is no decimal. -/
theorem parse_total_trailingPoint :
    tokenize "y=1.+²" = .ok [⟨.ident, "y", ⟨1, 1⟩⟩, ⟨.assign, "=", ⟨1, 2⟩⟩, ⟨.number, "1.", ⟨1, 3⟩⟩,
        ⟨.op, "+", ⟨1, 5⟩⟩, ⟨.number, "²", ⟨1, 6⟩⟩, ⟨.eof, "", ⟨1, 7⟩⟩] ∧
      ∃ error, Target.parse "y=1.+²" = .error (.parse (.number error ⟨1, 3⟩)) := by
  have hscanned : tokenize "y=1.+²" = .ok [⟨.ident, "y", ⟨1, 1⟩⟩, ⟨.assign, "=", ⟨1, 2⟩⟩,
      ⟨.number, "1.", ⟨1, 3⟩⟩, ⟨.op, "+", ⟨1, 5⟩⟩, ⟨.number, "²", ⟨1, 6⟩⟩, ⟨.eof, "", ⟨1, 7⟩⟩] := by
    decide +kernel
  obtain ⟨-, htotal⟩ := (parse_total "y=1.+²").2
  have hmisspelt : Number.Misspelt ("1." : String).toList := .trailingPoint ['1']
  have hasks : ∀ rest, Plan.Asks Target.language.dialect (.expression 0 rest)
      (Target.language.plan (⟨.ident, "y", ⟨1, 1⟩⟩ :: ⟨.assign, "=", ⟨1, 2⟩⟩ :: rest)) := fun _ => .now
  have hmoves := Language.moves_to_primary (by decide) rfl (hasks [⟨.number, "1.", ⟨1, 3⟩⟩,
    ⟨.op, "+", ⟨1, 5⟩⟩, ⟨.number, "²", ⟨1, 6⟩⟩, ⟨.eof, "", ⟨1, 7⟩⟩])
  exact ⟨hscanned, htotal.misspelt _ _ false _ hscanned hmoves (.plain rfl) hmisspelt⟩

/-- **Neither a program nor an error at a token**: a numeral of one digit more than are converted. -/
theorem parse_replicate_one :
    Source.parse (String.ofList ("let x = ".toList ++ List.replicate 4301 '1')) =
        .error (.oversized 4301) ∧
      Target.parse (String.ofList ("x = ".toList ++ List.replicate 4301 '1')) =
        .error (.oversized 4301) := by
  have hdigits : ∀ c ∈ List.replicate 4301 '1', c.isDigit = true :=
    fun c hc => List.eq_of_mem_replicate hc ▸ rfl
  have hlong : Number.digitLimit < (List.replicate 4301 '1').length := by
    rw [List.length_replicate]
    decide
  have hsource := Source.parse_letVar_digits (x := "x") (by decide) hdigits hlong
  have htarget := Target.parse_assign_digits (x := "x") (by decide) hdigits hlong
  rw [List.length_replicate] at hsource htarget
  exact ⟨hsource, htarget⟩

end Straightline
