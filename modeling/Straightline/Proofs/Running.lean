import Straightline.Target.Store

/-!
# Facts about running

What setting a variable does to the others, when an expression has a value, and what it means that a
program runs to its end.  Other modules take runs apart through these facts only: `eval_unary_eq_ok`
and `eval_binary_eq_ok` for expressions, `run_assign_eq_ok` for one assignment, `run_append` for
programs run one behind the other.  The value of an expression depends on the variables that occur in
it and on no others (`eval_congr`).
-/

namespace Straightline.Target

/-- What two runs come to can be compared. -/
instance decidableEqOutcome {ε σ α : Type} [DecidableEq ε] [DecidableEq σ] [DecidableEq α] :
    DecidableEq (EStateM.Result ε σ α)
  | .ok a s, .ok b t => decidable_of_iff (a = b ∧ s = t) (by simp)
  | .error e s, .error e' t => decidable_of_iff (e = e' ∧ s = t) (by simp)
  | .ok _ _, .error _ _ => isFalse nofun
  | .error _ _, .ok _ _ => isFalse nofun

/-- The variables that occur in an expression. -/
def Expr.idents : Expr → List String
  | .literal _ => []
  | .ident x => [x]
  | .unary _ e => e.idents
  | .binary l _ r => l.idents ++ r.idents
  | .stray _ => []

/-- The variables that occur in a program. -/
def idents : List Stmt → List String
  | [] => []
  | .assign x e :: rest => x :: e.idents ++ idents rest
  | .stray _ :: rest => idents rest

namespace Store

/-! ## Variables -/

@[simp] theorem get_set_self (s : Store) (x : String) (v : Number) : (s.set x v).get x = v := by
  simp [get, set]

/-- Setting a variable leaves alone all whose names differ from it by more than case. -/
theorem get_set_of_lower_ne (s : Store) {x y : String} (v : Number)
    (h : Text.lower y ≠ Text.lower x) : (s.set x v).get y = s.get y := by
  simp only [get, set, Table.get?_set_of_ne _ _ h]

variable [Elementary] {s t : Store}

/-! ## Expressions -/

omit [Elementary] in
theorem mapError_ok (v : Number) :
    (Except.ok v : Except Number.Fault Number).mapError EvalError.number = .ok v := rfl

omit [Elementary] in
theorem mapError_eq_ok {r : Except Number.Fault Number} {v : Number} :
    r.mapError EvalError.number = .ok v ↔ r = .ok v := by
  cases r with
  | error f => exact ⟨nofun, nofun⟩
  | ok w => rw [mapError_ok, Except.ok.injEq, Except.ok.injEq]

theorem eval_unary_eq_ok {op : PrefixOp} {e : Expr} {v : Number} :
    s.eval (.unary op e) = .ok v ↔ ∃ a, s.eval e = .ok a ∧ op.apply a = .ok v := by
  rw [eval]
  cases s.eval e with
  | error f => simp [bind, Except.bind]
  | ok a => simp [bind, Except.bind, mapError_eq_ok]

theorem eval_binary_eq_ok {op : InfixOp} {l r : Expr} {v : Number} :
    s.eval (.binary l op r) = .ok v ↔
      ∃ a b, s.eval l = .ok a ∧ s.eval r = .ok b ∧ op.apply a b = .ok v := by
  rw [eval]
  cases s.eval l with
  | error f => simp [bind, Except.bind]
  | ok a =>
    cases s.eval r with
    | error f => simp [bind, Except.bind]
    | ok b => simp [bind, Except.bind, mapError_eq_ok]

/-- The value of an expression depends on the variables that occur in it and on no others. -/
theorem eval_congr {e : Expr} (h : ∀ x ∈ e.idents, t.get x = s.get x) : t.eval e = s.eval e := by
  induction e with
  | literal n => rfl
  | ident x => exact congrArg Except.ok (h x List.mem_cons_self)
  | unary op e ih => rw [eval, eval, ih h]
  | binary l op r ihl ihr =>
    rw [eval, eval, ihl fun x hx => h x (List.mem_append_left _ hx),
      ihr fun x hx => h x (List.mem_append_right _ hx)]
  | stray node => rfl

/-! ## Programs -/

theorem run_assign_of_ok {x : String} {e : Expr} {v : Number} (h : s.eval e = .ok v)
    (rest : List Stmt) : s.run (.assign x e :: rest) = (s.set x v).run rest := by
  rw [run, h]

theorem run_assign_of_error {x : String} {e : Expr} {error : EvalError} (h : s.eval e = .error error)
    (rest : List Stmt) : s.run (.assign x e :: rest) = .error (error.inAssignment x) s := by
  rw [run, h]

theorem run_assign_eq_ok {x : String} {e : Expr} {rest : List Stmt} :
    s.run (.assign x e :: rest) = .ok () t ↔
      ∃ v, s.eval e = .ok v ∧ (s.set x v).run rest = .ok () t := by
  constructor
  · intro h
    rw [run] at h
    cases he : s.eval e with
    | error f => rw [he] at h; cases h
    | ok v => rw [he] at h; exact ⟨v, rfl, h⟩
  · rintro ⟨v, he, hr⟩
    rw [run_assign_of_ok he, hr]

/-- A program that runs to its end is followed by the next one from where it ended. -/
theorem run_append {p q : List Stmt} (h : s.run p = .ok () t) : s.run (p ++ q) = t.run q := by
  induction p generalizing s with
  | nil => cases h; rfl
  | cons stmt p ih =>
    cases stmt with
    | stray node => cases h
    | assign x e =>
      obtain ⟨v, he, hr⟩ := run_assign_eq_ok.mp h
      rw [List.cons_append, run_assign_of_ok he, ih hr]

end Store

end Straightline.Target
