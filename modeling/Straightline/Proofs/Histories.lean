import Straightline.Proofs.Scoping

/-!
# Sessions that go on after a refusal

`Session.after p` is the state of a session that was given the statements of `p` one by one, whether it
accepted or refused them.  What holds at the start and is kept by every statement holds of all such
states (`after_induction`).

Of the functions and of the functions remembered as checked a statement can change little: it enters
one new function, or it adds to the memory what one lowering added (`next_memory`).
-/

namespace Straightline

/-- **A computation leaves the memory** `d` behind when it starts with `c`, whatever it comes to. -/
def Lower.Leaves {α : Type} (m : Lower α) (c d : List String) : Prop :=
  (∃ a, m c = .ok a d) ∨ ∃ fault, m c = .error fault d

namespace Session

variable {s : Session}

/-- The state in which a statement leaves a session, accepted or not. -/
def next (s : Session) (stmt : Source.Stmt) : Session :=
  match s.step stmt with
  | .ok _ s' => s'
  | .error _ s' => s'

/-- Why a statement is refused, if it is. -/
def refusal? (s : Session) (stmt : Source.Stmt) : Option Fault :=
  match s.step stmt with
  | .ok _ _ => none
  | .error fault _ => some fault

/-- **The state of a session** that started afresh and was given some statements. -/
def after (p : Source.Program) : Session := p.foldl next {}

theorem after_concat (p : Source.Program) (stmt : Source.Stmt) :
    after (p ++ [stmt]) = (after p).next stmt := by
  rw [after, List.foldl_append]
  rfl

/-- What holds of a new session and is kept by every statement holds after any statements. -/
theorem after_induction {I : Session → Prop} (initial : I {})
    (step : ∀ s stmt, I s → I (s.next stmt)) (p : Source.Program) : I (after p) := by
  suffices h : ∀ s, I s → I (p.foldl next s) from h {} initial
  induction p with
  | nil => exact fun s hs => hs
  | cons stmt p ih => exact fun s hs => ih _ (step s stmt hs)

theorem next_of_ok {s' : Session} {stmt : Source.Stmt} (h : s.step stmt = .ok () s') :
    s.next stmt = s' := by
  rw [next, h]

theorem next_of_error {s' : Session} {stmt : Source.Stmt} {fault : Fault}
    (h : s.step stmt = .error fault s') : s.next stmt = s' := by
  rw [next, h]

/-- What every accepted statement keeps, a program that is accepted as a whole keeps. -/
theorem run_induction {I : Session → Prop} {p : Source.Program} {s' : Session}
    (step : ∀ stmt ∈ p, ∀ s s', I s → s.step stmt = .ok () s' → I s') (hrun : s.run p = .ok () s')
    (hs : I s) : I s' := by
  induction p generalizing s with
  | nil =>
    cases hrun
    exact hs
  | cons stmt p ih =>
    obtain ⟨s₁, hstep, hrun⟩ := run_cons hrun
    exact ih (fun stmt hmem => step stmt (List.mem_cons_of_mem _ hmem)) hrun
      (step stmt List.mem_cons_self s s₁ hs hstep)

theorem refusal?_letVar (s : Session) (x : String) (e : Source.Expr) :
    s.refusal? (.letVar x e) =
      match lower s.scope e s.checked with
      | .error fault _ => some fault
      | .ok v _ =>
        match s.scope.letVar x v with
        | .error fault => some fault
        | .ok _ => none := by
  simp only [refusal?, step, letVar]
  cases lower s.scope e s.checked with
  | error fault c => rfl
  | ok v c =>
    simp only
    cases s.scope.letVar x v with
    | error fault => rfl
    | ok r => rfl

/-! ## Refused statements -/

/-- A refused statement changes no more than the memory, and that only if it is a binding; an export
may have been recorded. -/
theorem step_eq_error {s' : Session} {stmt : Source.Stmt} {fault : Fault}
    (h : s.step stmt = .error fault s') :
    (∃ c, s' = { s with checked := c } ∧ (c = s.checked ∨
        ∃ x e, stmt = .letVar x e ∧ (lower s.scope e).Leaves s.checked c)) ∨
      ∃ x scope, stmt = .exportVar x ∧ s.scope.exportVar x = .error fault scope ∧
        s' = { s with scope := scope } := by
  have henter : ∀ r, s.enter r = .error fault s' → s' = { s with checked := s.checked } := by
    intro r hr
    cases r with
    | ok scope => cases hr
    | error fault' => cases hr; rfl
  cases stmt with
  | importVar x => exact Or.inl ⟨_, henter _ h, Or.inl rfl⟩
  | define x params body => exact Or.inl ⟨_, henter _ h, Or.inl rfl⟩
  | letVar x e =>
    simp only [step] at h
    unfold letVar at h
    split at h
    · cases h
      exact Or.inl ⟨_, rfl, Or.inr ⟨x, e, rfl, Or.inr ⟨_, ‹_›⟩⟩⟩
    · split at h
      · cases h
        exact Or.inl ⟨_, rfl, Or.inr ⟨x, e, rfl, Or.inl ⟨_, ‹_›⟩⟩⟩
      · cases h
  | exportVar x =>
    obtain ⟨scope, hscope, hs'⟩ := step_exportVar_error h
    exact Or.inr ⟨x, scope, rfl, hscope, hs'⟩
  | stray node =>
    cases h
    exact Or.inl ⟨s.checked, rfl, Or.inl rfl⟩

/-! ## Functions and memory -/

/-- **What a statement does to the functions and to the memory**, accepted or not: it enters a new
function, or it leaves the functions alone and the memory as one lowering leaves it. -/
theorem next_memory (s : Session) (stmt : Source.Stmt) :
    (∃ x params body, stmt = .define x params body ∧ s.scope.functions.has x = false ∧
        (s.next stmt).scope.functions = s.scope.functions.set x ⟨x, params, body⟩ ∧
        (s.next stmt).checked = s.checked) ∨
      (s.next stmt).scope.functions = s.scope.functions ∧
        ((s.next stmt).checked = s.checked ∨ ∃ x e, stmt = .letVar x e ∧
          (lower s.scope e).Leaves s.checked (s.next stmt).checked) := by
  cases h : s.step stmt with
  | error fault s' =>
    rw [next_of_error h]
    obtain ⟨c, rfl, hc⟩ | ⟨x, scope, rfl, hexport, rfl⟩ := step_eq_error h
    · exact Or.inr ⟨rfl, hc⟩
    · obtain ⟨rfl, _⟩ | ⟨v, wanted, _, _, rfl⟩ := Scope.exportVar_eq_error hexport
      · exact Or.inr ⟨rfl, Or.inl rfl⟩
      · exact Or.inr ⟨rfl, Or.inl rfl⟩
  | ok u s' =>
    rw [next_of_ok h]
    cases stmt with
    | importVar x =>
      obtain ⟨scope, hscope, rfl⟩ := step_importVar h
      obtain ⟨_, rfl⟩ := Scope.importVar_eq_ok hscope
      exact Or.inr ⟨rfl, Or.inl rfl⟩
    | define x params body =>
      obtain ⟨scope, hscope, rfl⟩ := step_define h
      obtain ⟨⟨hnew, _⟩, rfl⟩ := Scope.define_eq_ok hscope
      exact Or.inl ⟨x, params, body, rfl, hnew, rfl, rfl⟩
    | letVar x e =>
      obtain ⟨v, c, scope, stmts, hlower, hlet, rfl⟩ := step_letVar h
      obtain ⟨_, rfl, _⟩ := Scope.letVar_eq_ok hlet
      exact Or.inr ⟨rfl, Or.inr ⟨x, e, rfl, Or.inl ⟨v, hlower⟩⟩⟩
    | exportVar x =>
      obtain ⟨scope, hscope, rfl⟩ := step_exportVar h
      obtain ⟨v, xs, _, rfl⟩ := Scope.exportVar_eq_ok hscope
      exact Or.inr ⟨rfl, Or.inl rfl⟩
    | stray node => cases h

end Session

end Straightline
