import Straightline.Proofs.Climbing

/-!
# How the readers call each other

Each of the six readers of expressions looks at the tokens in front of it, calls other readers, and goes
on with what they leave.  A `Plan` writes this down without running it: the calls that a reader makes
one after the other, and its own answers.  Running the plan with the answers of readers one call less
deep is what the reader does (`Call.read_succ`), so that what is to be said about all six of them is
said about plans.  For one thing, what has been read does not depend on how deep the readers may go
(`Call.read_eq_of_le`).
-/

namespace Straightline.Grammar

variable {ε α β : Type} {d : Dialect ε} {n m : Nat}

/-- The brackets around a list of expressions. -/
inductive Bracket where
  | round
  | square

/-- The token that closes a bracket. -/
def Bracket.close : Bracket → Token.Kind
  | .round => .rparen
  | .square => .rbracket

/-- What is called for if a bracket is not closed. -/
def Bracket.missing : Bracket → Expectation
  | .round => .closeParen
  | .square => .closeBracket

/-- **A call of a reader**, with the tokens in front of it, by what the reader returns. -/
inductive Call (ε : Type) : Type → Type
  | expression (least : Nat) (toks : List Token) : Call ε ε
  | climb (least : Nat) (lhs : ε) (toks : List Token) : Call ε ε
  | unary (toks : List Token) : Call ε ε
  | primary (toks : List Token) : Call ε ε
  | arguments (bracket : Bracket) (toks : List Token) : Call ε (List ε)
  | argumentsFrom (bracket : Bracket) (toks : List Token) : Call ε (List ε)

/-- **What a reader does**: it answers, or it calls a reader and goes on with what that one leaves. -/
inductive Plan (ε : Type) (α : Type) : Type 1
  | answer (result : Except ReadError (α × List Token))
  | ask {β : Type} (call : Call ε β) (next : β → List Token → Plan ε α)

namespace Plan

/-- A plan whose answer is that of another reader. -/
def last (c : Call ε α) : Plan ε α := .ask c fun a rest => .answer (.ok (a, rest))

/-- A plan that begins with a step that may fail. -/
def after (step : Except ReadError β) (next : β → Plan ε α) : Plan ε α :=
  match step with
  | .ok b => next b
  | .error e => .answer (.error e)

/-- **Runs a plan**, given what the readers answer to its calls. -/
def run (read : (β : Type) → Call ε β → Except ReadError (β × List Token)) :
    Plan ε α → Except ReadError (α × List Token)
  | .answer result => result
  | .ask c next => do
    let (b, rest) ← read _ c
    (next b rest).run read

variable {read read' : (β : Type) → Call ε β → Except ReadError (β × List Token)}

theorem run_last (c : Call ε α) : (last c).run read = read α c := by
  rw [last, run]
  cases read α c with
  | error e => rfl
  | ok r => rfl

theorem run_after (step : Except ReadError β) (next : β → Plan ε α) :
    (after step next).run read = step >>= fun b => (next b).run read := by
  cases step with
  | error e => rfl
  | ok b => rfl

/-- A row of steps runs a plan if it does so behind the first step. -/
theorem bind_eq_run_after {step : Except ReadError β} {next : β → Plan ε α}
    {steps : β → Except ReadError (α × List Token)} (h : ∀ b, steps b = (next b).run read) :
    step >>= steps = (after step next).run read := by
  rw [run_after]
  exact bind_congr h

/-- **Readers that answer more calls** answer those as before that were answered. -/
theorem run_eq_of_ne_tooDeep
    (hread : ∀ (β : Type) (c : Call ε β), read β c ≠ .error .tooDeep → read' β c = read β c)
    (plan : Plan ε α) (h : plan.run read ≠ .error .tooDeep) : plan.run read' = plan.run read := by
  induction plan with
  | answer result => rfl
  | ask c next ih =>
    rw [run] at h
    rw [run, run]
    cases hc : read _ c with
    | error e =>
      rw [hc] at h
      have hne : read _ c ≠ .error .tooDeep := by
        rw [hc]
        rintro ⟨⟩
        exact h rfl
      rw [hread _ c hne, hc]
      rfl
    | ok r =>
      rw [hc] at h
      rw [hread _ c (by simp [hc]), hc]
      exact ih r.1 r.2 h

end Plan

namespace Call

/-- Makes a call, at most `n` calls deep. -/
def read (d : Dialect ε) (n : Nat) {α : Type} : Call ε α → Except ReadError (α × List Token)
  | .expression least toks => Grammar.expression d n least toks
  | .climb least lhs toks => Grammar.climb d n least lhs toks
  | .unary toks => Grammar.unary d n toks
  | .primary toks => Grammar.primary d n toks
  | .arguments bracket toks => Grammar.arguments d n bracket.close bracket.missing toks
  | .argumentsFrom bracket toks => Grammar.argumentsFrom d n bracket.close bracket.missing toks

/-- **What the reader that is called does.** -/
def plan (d : Dialect ε) {α : Type} : Call ε α → Plan ε α
  | .expression least toks => .ask (.unary toks) fun lhs rest => .last (.climb least lhs rest)
  | .climb _ lhs [] => .answer (.ok (lhs, []))
  | .climb least lhs (t :: rest) =>
    match infixOp? t with
    | none => .answer (.ok (lhs, t :: rest))
    | some op =>
      if d.strength op < least then .answer (.ok (lhs, t :: rest))
      else .ask (.expression (rightStrength d op) rest) fun rhs rest =>
        .last (.climb least (d.binary lhs op rhs) rest)
  | .unary toks =>
    match prefixOp? (peek toks) with
    | none => .last (.primary toks)
    | some op =>
      if op = .neg ∧ (peek toks.tail).kind = .number then
        .after (numeral true (peek toks.tail)) fun value =>
          .answer (.ok (d.literal value, toks.tail.tail))
      else .ask (.unary toks.tail) fun operand rest => .answer (.ok (d.unary op operand, rest))
  | .primary [] => .answer (.error (.parse (.unexpected nothing)))
  | .primary (t :: rest) =>
    match t.kind with
    | .number => .after (numeral false t) fun value => .answer (.ok (d.literal value, rest))
    | .ident =>
      if t.text ∈ d.reserved then .answer (.error (.parse (.unexpected t)))
      else
        match d.call? with
        | none => .answer (.ok (d.ident t.text, rest))
        | some call =>
          if (peek rest).kind = .lparen then
            .ask (.arguments .round rest.tail) fun args rest => .answer (.ok (call t.text args, rest))
          else .answer (.ok (d.ident t.text, rest))
    | .lbracket =>
      match d.array? with
      | none => .answer (.error (.parse (.unexpected t)))
      | some array => .ask (.arguments .square rest) fun items rest => .answer (.ok (array items, rest))
    | .lparen =>
      .ask (.expression 0 rest) fun inner rest =>
        .after (expect .rparen .closeParen rest) fun r => .answer (.ok (inner, r.2))
    | _ => .answer (.error (.parse (.unexpected t)))
  | .arguments bracket toks =>
    if (peek toks).kind = bracket.close then .answer (.ok ([], toks.tail))
    else .last (.argumentsFrom bracket toks)
  | .argumentsFrom bracket toks =>
    .ask (.expression 0 toks) fun first rest =>
      if (peek rest).kind = .comma then
        .ask (.argumentsFrom bracket rest.tail) fun more rest => .answer (.ok (first :: more, rest))
      else
        .after (expect bracket.close bracket.missing rest) fun r => .answer (.ok ([first], r.2))

theorem read_zero (c : Call ε α) : c.read d 0 = .error .tooDeep := by
  cases c <;> rfl

/-- **A reader runs its plan**, with readers one call less deep. -/
theorem read_succ (c : Call ε α) :
    c.read d (n + 1) = (c.plan d).run fun _ c' => c'.read d n := by
  cases c with
  | expression least toks =>
    simp only [read, plan, Grammar.expression, Plan.run, Plan.run_last]
  | climb least lhs toks =>
    cases toks with
    | nil => rfl
    | cons t rest =>
      simp only [read, plan, Grammar.climb]
      cases infixOp? t with
      | none => rfl
      | some op =>
        dsimp only
        split
        · rfl
        · simp only [Plan.run, Plan.run_last]
  | unary toks =>
    simp only [read, plan, Grammar.unary]
    cases prefixOp? (peek toks) with
    | none => simp only [Plan.run_last]
    | some op =>
      dsimp only
      split
      · rw [Plan.run_after]
        rfl
      · rfl
  | primary toks =>
    cases toks with
    | nil => rfl
    | cons t rest =>
      simp only [read, plan, Grammar.primary]
      cases t.kind with
      | number =>
        dsimp only
        rw [Plan.run_after]
        rfl
      | ident =>
        dsimp only
        split
        · rfl
        · cases d.call? with
          | none => rfl
          | some call =>
            dsimp only
            split <;> rfl
      | lbracket =>
        cases d.array? with
        | none => rfl
        | some array => rfl
      | lparen =>
        simp only [Plan.run, Plan.run_after]
        rfl
      | op | assign | comma | semi | rparen | rbracket | eof => rfl
  | arguments bracket toks =>
    simp only [read, plan, Grammar.arguments]
    split
    · rfl
    · simp only [Plan.run_last]
  | argumentsFrom bracket toks =>
    simp only [read, plan, Grammar.argumentsFrom, Plan.run]
    refine bind_congr fun r => ?_
    split
    · rfl
    · rw [Plan.run_after]
      rfl

/-- **What has been read is read again at every greater depth.** -/
theorem read_eq_of_le (h : n ≤ m) (c : Call ε α) (hread : c.read d n ≠ .error .tooDeep) :
    c.read d m = c.read d n := by
  induction n generalizing α m with
  | zero => exact absurd (read_zero c) hread
  | succ n ih =>
    obtain ⟨m, rfl⟩ : ∃ k, m = k + 1 := ⟨m - 1, by omega⟩
    rw [read_succ] at hread ⊢
    rw [read_succ]
    exact Plan.run_eq_of_ne_tooDeep (fun β c' hc' => ih (by omega) c' hc') _ hread

end Call

end Straightline.Grammar
