import Straightline.Proofs.Steps
import Straightline.Target.Folding

/-!
# Folding settles after one sweep

`Settled` says of an expression that folding finds nothing to do in it: no variable in it is bound to a
literal, no identity applies, and the operations on literals that are left have no value.  It is said
without reference to folding.

Folding leaves only settled expressions (`reduce_settled`) and leaves settled ones alone
(`reduce_of_settled`).  For programs the same holds statement by statement: as the second sweep finds
every right-hand side settled, it goes through the same bindings as the first, however often a name is
rebound.  So the second sweep changes nothing, and repeating the sweep ends with it (`fold_settles`).
-/

namespace Straightline.Target

/-! ## Expressions -/

namespace Expr

/-- **An operation without a value**, which is left as it stands. -/
def Fails (result : Except Number.Fault Number) : Prop :=
  ∃ fault, result = .error fault ∧ fault.isOfOperands = true

variable [Elementary] {bindings : Table Expr}

/-- **Nothing is left to fold** in an expression behind assignments that gave rise to `bindings`. -/
def Settled (bindings : Table Expr) : Expr → Prop
  | .literal _ => True
  | .ident x => ∀ n, bindings.get? x ≠ some (.literal n)
  | .unary op e => e.Settled bindings ∧ ∀ n, e = .literal n → Fails (op.apply n)
  | .binary l op r =>
    l.Settled bindings ∧ r.Settled bindings ∧ identity? l op r = none ∧
      ∀ a b, l = .literal a → r = .literal b → Fails (op.apply a b)
  | .stray _ => False

omit [Elementary] in
theorem settle_eq_ok_iff {unfolded e : Expr} {result : Except Number.Fault Number} :
    settle unfolded result = .ok e ↔
      (∃ n, result = .ok n ∧ e = .literal n) ∨ Fails result ∧ e = unfolded := by
  cases result with
  | ok n =>
    simp only [settle, Fails, Except.ok.injEq, reduceCtorEq, false_and, exists_false, or_false,
      exists_eq_left', eq_comm]
  | error fault =>
    by_cases h : fault.isOfOperands = true
    · simp only [settle, h, if_true, Except.ok.injEq, Fails, reduceCtorEq, false_and, exists_false,
        Except.error.injEq, exists_eq_left', true_and, false_or]
      exact eq_comm
    · simp [settle, Fails, h]

omit [Elementary] in
/-- An identity drops one operand, or both. -/
theorem identity?_cases {l r e : Expr} {op : InfixOp} (h : identity? l op r = some e) :
    e = l ∨ e = r ∨ ∃ n, e = .literal n := by
  have hself : ∀ {d : Expr}, some d = some e → e = d := fun h => (Option.some.inj h).symm
  unfold identity? at h
  repeat' split at h
  all_goals first
    | exact Or.inl (hself h)
    | exact Or.inr (Or.inl (hself h))
    | exact Or.inr (Or.inr ⟨_, hself h⟩)
    | cases h

/-- **What becomes of a prefix operation**: a literal, or itself if it cannot be carried out. -/
theorem foldUnary_cases {op : PrefixOp} {e d : Expr} (h : foldUnary op e = .ok d) :
    (∃ n, d = .literal n) ∨ d = .unary op e ∧ ∀ n, e = .literal n → Fails (op.apply n) := by
  unfold foldUnary at h
  split at h
  · rcases settle_eq_ok_iff.mp h with ⟨m, _, rfl⟩ | ⟨hfails, rfl⟩
    · exact Or.inl ⟨m, rfl⟩
    · refine Or.inr ⟨rfl, ?_⟩
      rintro m ⟨⟩
      exact hfails
  · rename_i hne
    cases h
    exact Or.inr ⟨rfl, fun n hn => absurd hn (hne n)⟩

/-- **What becomes of an infix operation**: one of its operands, a literal, or itself if no identity
applies and it cannot be carried out. -/
theorem foldBinary_cases {op : InfixOp} {l r d : Expr} (h : foldBinary l op r = .ok d) :
    d = l ∨ d = r ∨ (∃ n, d = .literal n) ∨
      d = .binary l op r ∧ identity? l op r = none ∧
        ∀ a b, l = .literal a → r = .literal b → Fails (op.apply a b) := by
  unfold foldBinary at h
  split at h
  · rename_i e hidentity
    cases h
    rcases identity?_cases hidentity with hl | hr | hn
    · exact Or.inl hl
    · exact Or.inr (Or.inl hr)
    · exact Or.inr (Or.inr (Or.inl hn))
  · rename_i hidentity
    refine Or.inr (Or.inr ?_)
    unfold foldLiterals at h
    split at h
    · rcases settle_eq_ok_iff.mp h with ⟨m, _, rfl⟩ | ⟨hfails, rfl⟩
      · exact Or.inl ⟨m, rfl⟩
      · refine Or.inr ⟨rfl, hidentity, ?_⟩
        rintro a b ⟨⟩ ⟨⟩
        exact hfails
    · rename_i hne
      cases h
      exact Or.inr ⟨rfl, hidentity, fun a b ha hb => absurd hb (hne a b ha)⟩

/-- **Folding leaves nothing to fold.** -/
theorem reduce_settled {e d : Expr} (h : e.reduce bindings = .ok d) : d.Settled bindings := by
  induction e generalizing d with
  | literal n =>
    cases h
    trivial
  | ident x =>
    cases h
    unfold resolve
    split
    · trivial
    · rename_i hne
      exact hne
  | unary op e ih =>
    rw [reduce] at h
    obtain ⟨e', he, h⟩ := bind_eq_ok.mp h
    rcases foldUnary_cases h with ⟨n, rfl⟩ | ⟨rfl, hfails⟩
    · trivial
    · exact ⟨ih he, hfails⟩
  | binary l op r ihl ihr =>
    rw [reduce] at h
    obtain ⟨l', hl, h⟩ := bind_eq_ok.mp h
    obtain ⟨r', hr, h⟩ := bind_eq_ok.mp h
    rcases foldBinary_cases h with rfl | rfl | ⟨n, rfl⟩ | ⟨rfl, hidentity, hfails⟩
    · exact ihl hl
    · exact ihr hr
    · trivial
    · exact ⟨ihl hl, ihr hr, hidentity, hfails⟩
  | stray node => cases h

/-- **Folding leaves a settled expression alone.** -/
theorem reduce_of_settled {e : Expr} (h : e.Settled bindings) : e.reduce bindings = .ok e := by
  induction e with
  | literal n => rfl
  | ident x =>
    have hself : resolve bindings x = .ident x := by
      unfold resolve
      split
      · rename_i n hn
        exact absurd hn (h n)
      · rfl
    rw [reduce, hself]
  | unary op e ih =>
    obtain ⟨he, hfails⟩ := h
    rw [reduce, ih he]
    change foldUnary op e = _
    unfold foldUnary
    split
    · exact settle_eq_ok_iff.mpr (Or.inr ⟨hfails _ rfl, rfl⟩)
    · rfl
  | binary l op r ihl ihr =>
    obtain ⟨hl, hr, hidentity, hfails⟩ := h
    rw [reduce, ihl hl, ihr hr]
    change foldBinary l op r = _
    rw [foldBinary, hidentity]
    change foldLiterals l op r = _
    unfold foldLiterals
    split
    · exact settle_eq_ok_iff.mpr (Or.inr ⟨hfails _ _ rfl rfl, rfl⟩)
    · rfl
  | stray node => exact h.elim

end Expr

/-! ## Programs -/

section

variable [Elementary] {bindings : Table Expr} {stmts folded : List Stmt}

/-- **Nothing is left to fold** in a program behind assignments that gave rise to `bindings`. -/
def Settled (bindings : Table Expr) : List Stmt → Prop
  | [] => True
  | .assign x e :: rest => e.Settled bindings ∧ Settled (bindings.set x e) rest
  | .stray _ :: _ => False

theorem foldFrom_assign {x : String} {e : Expr} (h : foldFrom bindings (.assign x e :: stmts) = .ok folded) :
    ∃ d rest, e.reduce bindings = .ok d ∧ foldFrom (bindings.set x d) stmts = .ok rest ∧
      folded = .assign x d :: rest := by
  rw [foldFrom] at h
  obtain ⟨d, hd, h⟩ := bind_eq_ok.mp h
  obtain ⟨rest, hrest, h⟩ := bind_eq_ok.mp h
  exact ⟨d, rest, hd, hrest, (Except.ok.inj h).symm⟩

theorem foldFrom_settled (h : foldFrom bindings stmts = .ok folded) : Settled bindings folded := by
  induction stmts generalizing bindings folded with
  | nil =>
    cases h
    trivial
  | cons stmt stmts ih =>
    cases stmt with
    | stray node => cases h
    | assign x e =>
      obtain ⟨d, rest, hd, hrest, rfl⟩ := foldFrom_assign h
      exact ⟨Expr.reduce_settled hd, ih hrest⟩

theorem foldFrom_of_settled (h : Settled bindings stmts) : foldFrom bindings stmts = .ok stmts := by
  induction stmts generalizing bindings with
  | nil => rfl
  | cons stmt stmts ih =>
    cases stmt with
    | stray node => exact h.elim
    | assign x e =>
      obtain ⟨he, hrest⟩ := h
      simp only [foldFrom, Expr.reduce_of_settled he, bind, Except.bind, ih hrest]
      rfl

/-- **A second sweep changes nothing.** -/
theorem fold_fold (h : fold stmts = .ok folded) : fold folded = .ok folded :=
  foldFrom_of_settled (foldFrom_settled h)

/-! ## Repeated sweeps -/

variable (limit : Option Int) (passes : Nat)

theorem foldAgain_of_unchanged (h : fold stmts = .ok stmts) :
    foldAgain limit passes stmts = .ok stmts := by
  unfold foldAgain
  split
  · rename_i hfold
    rw [h] at hfold
    cases hfold
  · rename_i hfold
    rw [h] at hfold
    cases hfold
    exact if_pos rfl

theorem foldAgain_of_changed (h : fold stmts = .ok folded) (hne : folded ≠ stmts) :
    foldAgain limit passes stmts =
      match reached? limit (passes + 1) with
      | some k => .error (.unsettled k)
      | none => foldAgain limit (passes + 1) folded := by
  rw [foldAgain]
  split
  · rename_i hfold
    rw [h] at hfold
    cases hfold
  · rename_i hfold
    rw [h] at hfold
    cases hfold
    exact if_neg hne

/-- What repeating the sweep comes to, under any limit. -/
theorem foldToFixpoint_eq (h : fold stmts = .ok folded) :
    foldToFixpoint limit stmts =
      if folded = stmts then .ok folded
      else
        match reached? limit 1 with
        | some k => .error (.unsettled k)
        | none => .ok folded := by
  unfold foldToFixpoint
  by_cases hne : folded = stmts
  · rw [if_pos hne, hne]
    exact foldAgain_of_unchanged limit 0 (hne ▸ h)
  · rw [if_neg hne, foldAgain_of_changed limit 0 h hne]
    -- The second sweep is the last one, whatever the limit.
    rw [foldAgain_of_unchanged limit 1 (fold_fold h)]

/-- Repeated sweeps come to the result of the first, if to any. -/
theorem fold_of_foldToFixpoint {limit : Option Int} (h : foldToFixpoint limit stmts = .ok folded) :
    fold stmts = .ok folded := by
  cases hfold : fold stmts with
  | error fault =>
    rw [foldToFixpoint, foldAgain] at h
    split at h
    · cases h
    · rename_i hok
      rw [hfold] at hok
      cases hok
  | ok once =>
    rw [foldToFixpoint_eq limit hfold] at h
    split at h
    · exact h
    · split at h
      · cases h
      · exact h

theorem foldToFixpoint_none (h : fold stmts = .ok folded) : foldToFixpoint none stmts = .ok folded := by
  rw [foldToFixpoint_eq none h]
  simp [reached?]

/-- **Folding settles after one sweep.**  Where a sweep succeeds, another one returns its result
unchanged.  So repeated sweeps come to the result of the first and stop with the second: without a limit,
and with any limit of two or more.  Under a limit of at most one they fail exactly if the first sweep
changes the program.  Names may be rebound, and an assignment may read its own target. -/
theorem fold_settles (h : fold stmts = .ok folded) :
    fold folded = .ok folded ∧
      foldToFixpoint none stmts = .ok folded ∧
      (∀ k : Int, 2 ≤ k → foldToFixpoint (some k) stmts = .ok folded) ∧
      ∀ k : Int, foldToFixpoint (some k) stmts =
        if k ≤ 1 ∧ folded ≠ stmts then .error (.unsettled k) else .ok folded := by
  have hcapped : ∀ k : Int, foldToFixpoint (some k) stmts =
      if k ≤ 1 ∧ folded ≠ stmts then .error (.unsettled k) else .ok folded := by
    intro k
    rw [foldToFixpoint_eq (some k) h]
    by_cases hne : folded = stmts
    · simp [hne]
    · by_cases hk : k ≤ 1
      · simp [hne, hk, reached?]
      · simp [hne, hk, reached?]
  refine ⟨fold_fold h, foldToFixpoint_none h, ?_, hcapped⟩
  intro k hk
  rw [hcapped k, if_neg (by omega)]

end

/-- A program that rebinds `a` in terms of itself, and divides by zero: `a=1+1 a=a*3 b=u+0 c=1/0-a`. -/
def divided : List Stmt :=
  [.assign "a" (.binary (.literal .one) .add (.literal .one)),
    .assign "a" (.binary (.ident "a") .mul (.literal (.ofInt 3))),
    .assign "b" (.binary (.ident "u") .add (.literal .zero)),
    .assign "c" (.binary (.binary (.literal .one) .div (.literal .zero)) .sub (.ident "a"))]

/-- What it is folded to: `a=2 a=6 b=u c=1/0-6`. -/
def dividedFolded : List Stmt :=
  [.assign "a" (.literal (.ofInt 2)),
    .assign "a" (.literal (.ofInt 6)),
    .assign "b" (.ident "u"),
    .assign "c" (.binary (.binary (.literal .one) .div (.literal .zero)) .sub (.literal (.ofInt 6)))]

/-- Two sweeps are enough for it, and one is not. -/
theorem fold_settles_divided :
    fold divided = .ok dividedFolded ∧ fold dividedFolded = .ok dividedFolded ∧
      foldToFixpoint (some 2) divided = .ok dividedFolded ∧
      foldToFixpoint (some 1) divided = .error (.unsettled 1) := by
  have hfold : fold divided = .ok dividedFolded := rfl
  have hne : dividedFolded ≠ divided := by decide +kernel
  obtain ⟨hagain, _, htwo, hcapped⟩ := fold_settles hfold
  refine ⟨hfold, hagain, htwo 2 (by omega), ?_⟩
  rw [hcapped 1, if_pos ⟨by omega, hne⟩]

end Straightline.Target
