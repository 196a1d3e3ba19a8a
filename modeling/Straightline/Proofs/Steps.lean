/-!
# Steps that may fail

A reader or a compiler is a row of steps, each of which may fail.  The row succeeds exactly if every
step does, and the steps can then be taken apart one by one.  It fails with the first step that does.
-/

namespace Straightline

variable {ε ε' α β : Type}

theorem bind_eq_ok {step : Except ε α} {next : α → Except ε β} {b : β} :
    (step >>= next) = .ok b ↔ ∃ a, step = .ok a ∧ next a = .ok b := by
  cases step with
  | error e => simp [bind, Except.bind]
  | ok a => simp [bind, Except.bind]

theorem bind_eq_error {step : Except ε α} {next : α → Except ε β} {e : ε} :
    (step >>= next) = .error e ↔ step = .error e ∨ ∃ a, step = .ok a ∧ next a = .error e := by
  cases step with
  | error e' => simp [bind, Except.bind]
  | ok a => simp [bind, Except.bind]

/-- A step whose error is put in other words succeeds as before. -/
theorem mapError_eq_ok {step : Except ε α} {f : ε → ε'} {a : α} :
    step.mapError f = .ok a ↔ step = .ok a := by
  cases step with
  | error e =>
    constructor
    · intro h
      cases h
    · intro h
      cases h
  | ok b =>
    constructor
    · rintro ⟨⟩
      rfl
    · rintro ⟨⟩
      rfl

theorem mapError_eq_error {step : Except ε α} {f : ε → ε'} {e' : ε'} :
    step.mapError f = .error e' ↔ ∃ e, step = .error e ∧ f e = e' := by
  cases step with
  | error e =>
    constructor
    · rintro ⟨⟩
      exact ⟨e, rfl, rfl⟩
    · rintro ⟨_, ⟨⟩, rfl⟩
      rfl
  | ok a =>
    constructor
    · rintro ⟨⟩
    · rintro ⟨_, ⟨⟩, _⟩

theorem eq_ok_of_toOption {step : Except ε α} {a : α} (h : step.toOption = some a) : step = .ok a := by
  cases step with
  | error e => cases h
  | ok b => exact congrArg Except.ok (Option.some.inj h)

end Straightline
