import Straightline.Session

/-!
# What an accepted statement does

Each lemma takes an accepted statement apart: the guards it passed and the scope it leaves.  Later
modules reason about sessions through these lemmas and never open the operations themselves.

A name is *in use* if its lower case is entered in the table of spellings.  Entering names adds
exactly their lower cases (`isSome_get?_foldl_spell`), so a name that was free when a variable was
bound differs by more than case from every name in use.
-/

namespace Straightline

namespace Scope

variable {s s' : Scope} {x y : String}

/-! ## Names in use -/

theorem spelling?_congr (s : Scope) (h : Text.lower x = Text.lower y) :
    s.spelling? x = s.spelling? y := by
  rw [spelling?, spelling?, h]

theorem lower_ne_of_spelling? (hx : s.spelling? x = none) (hy : s.spelling? y ≠ none) :
    Text.lower y ≠ Text.lower x :=
  fun h => hy ((s.spelling?_congr h).trans hx)

theorem isSome_get?_foldl_spell (xs : List String) (t : Table String) (key : String) :
    ((xs.foldl spell t).get? key).isSome = true ↔
      (t.get? key).isSome = true ∨ ∃ x ∈ xs, Text.lower x = key := by
  induction xs generalizing t with
  | nil => simp
  | cons x xs ih =>
    rw [List.foldl_cons, ih, spell]
    by_cases h : key = Text.lower x
    · subst h
      simp
    · rw [Table.get?_set_of_ne _ _ h]
      simp only [List.mem_cons, exists_eq_or_imp]
      constructor
      · rintro (h₁ | h₁)
        · exact Or.inl h₁
        · exact Or.inr (Or.inr h₁)
      · rintro (h₁ | h₁ | h₁)
        · exact Or.inl h₁
        · exact absurd h₁.symm h
        · exact Or.inr h₁

theorem conflict?_eq_none {xs : List String} (h : s.conflict? xs = none) :
    ∀ x ∈ xs, s.spelling? x = none := by
  induction xs with
  | nil => intro x hx; cases hx
  | cons z xs ih =>
    rw [conflict?] at h
    cases hz : s.spelling? z with
    | some existing => rw [hz] at h; cases h
    | none =>
      rw [hz] at h
      intro x hx
      rcases List.mem_cons.mp hx with rfl | hx
      · exact hz
      · exact ih h x hx

/-! ## Accepted operations -/

theorem importVar_eq_ok (h : s.importVar x = .ok s') :
    (x ∉ s.imports ∧ s.bindings.has x = false ∧ x ∉ s.keywords ∧ s.spelling? x = none) ∧
      s' = { s with
        imports := x :: s.imports
        bindings := s.bindings.set x (.scalar (.ident x))
        spellings := [x].foldl spell s.spellings } := by
  unfold importVar at h
  split at h
  · cases h
  split at h
  · cases h
  split at h
  · cases h
  split at h
  · cases h
  · cases h
    exact ⟨⟨‹_›, Bool.eq_false_iff.mpr ‹_›, ‹_›, ‹_›⟩, rfl⟩

theorem define_eq_ok {f : Definition} (h : s.define f = .ok s') :
    (s.functions.has f.name = false ∧ f.name ∉ s.keywords) ∧
      s' = { s with functions := s.functions.set f.name f } := by
  unfold define at h
  split at h
  · cases h
  split at h
  · cases h
  · cases h
    exact ⟨⟨Bool.eq_false_iff.mpr ‹_›, ‹_›⟩, rfl⟩

theorem letVar_eq_ok {v : Value} {stmts : List Target.Stmt} (h : s.letVar x v = .ok (s', stmts)) :
    (x ∉ s.imports ∧ s.bindings.has x = false ∧ x ∉ s.keywords ∧
        ∀ y ∈ x :: (v.parts x).map (·.1), s.spelling? y = none) ∧
      s' = { s with
        bindings := s.bindings.set x (v.reference x)
        spellings := (x :: (v.parts x).map (·.1)).foldl spell s.spellings } ∧
      stmts = (v.parts x).map fun p => .assign p.1 p.2 := by
  unfold letVar at h
  split at h
  · cases h
  rename_i hx
  split at h
  · cases h
  simp only at h
  split at h
  · cases h
  · rename_i hc
    cases h
    rw [not_or] at hx
    exact ⟨⟨hx.1, Bool.eq_false_iff.mpr hx.2, ‹_›, conflict?_eq_none hc⟩, rfl, rfl⟩

theorem exportVar_eq_ok (h : s.exportVar x = .ok () s') :
    ∃ v xs, (x ∉ s.exports ∧ s.bindings.get? x = some v ∧ v.cells = .ok xs) ∧
      s' = { s with
        exports := x :: s.exports
        roots := xs.foldl (fun rs y => rs.insert y) s.roots } := by
  unfold exportVar at h
  split at h
  · cases h
  split at h
  · cases h
  · rename_i v hv
    simp only at h
    split at h
    · cases h
    · cases h
      refine ⟨v, _, ⟨‹_›, ?_, ‹_›⟩, rfl⟩
      unfold valueOf at hv
      split at hv
      · cases hv; assumption
      · cases hv

/-- A refused export changes nothing, unless the value is no reference: then the name is recorded. -/
theorem exportVar_eq_error {fault : Fault} (h : s.exportVar x = .error fault s') :
    (s' = s ∧ (x ∈ s.exports ∧ fault = .exportTwice x ∨
        s.bindings.get? x = none ∧ fault = .undefinedVariable x)) ∨
      ∃ v wanted, s.bindings.get? x = some v ∧ v.cells = .error wanted ∧
        s' = { s with exports := x :: s.exports } := by
  unfold exportVar at h
  split at h
  · cases h
    exact Or.inl ⟨rfl, Or.inl ⟨‹_›, rfl⟩⟩
  cases hv : s.bindings.get? x with
  | none =>
    rw [valueOf, hv] at h
    cases h
    exact Or.inl ⟨rfl, Or.inr ⟨rfl, rfl⟩⟩
  | some v =>
    rw [valueOf, hv] at h
    simp only at h
    split at h
    · cases h
      exact Or.inr ⟨v, _, rfl, ‹_›, rfl⟩
    · cases h

end Scope

namespace Session

variable {s s' : Session} {x : String}

theorem step_importVar (h : s.step (.importVar x) = .ok () s') :
    ∃ scope, s.scope.importVar x = .ok scope ∧ s' = { s with scope := scope } := by
  simp only [step] at h
  unfold enter at h
  split at h
  · cases h; exact ⟨_, ‹_›, rfl⟩
  · cases h

theorem step_define {params : List String} {body : Source.Expr}
    (h : s.step (.define x params body) = .ok () s') :
    ∃ scope, s.scope.define ⟨x, params, body⟩ = .ok scope ∧ s' = { s with scope := scope } := by
  simp only [step] at h
  unfold enter at h
  split at h
  · rename_i scope hscope
    cases h
    cases hf : Definition.define x params body with
    | error fault => rw [hf] at hscope; cases hscope
    | ok f =>
      rw [hf] at hscope
      refine ⟨scope, ?_, rfl⟩
      obtain rfl : f = ⟨x, params, body⟩ := by
        unfold Definition.define at hf
        split at hf
        · cases hf
        · cases hc : Definition.checkBody x params body with
          | error fault => rw [hc] at hf; cases hf
          | ok u => rw [hc] at hf; cases hf; rfl
      exact hscope
  · cases h

theorem step_letVar {e : Source.Expr} (h : s.step (.letVar x e) = .ok () s') :
    ∃ v checked scope stmts, lower s.scope e s.checked = .ok v checked ∧
      s.scope.letVar x v = .ok (scope, stmts) ∧
      s' = { scope := scope, emitted := s.emitted ++ stmts, checked := checked } := by
  simp only [step] at h
  unfold letVar at h
  split at h
  · cases h
  · split at h
    · cases h
    · cases h
      exact ⟨_, _, _, _, ‹_›, ‹_›, rfl⟩

theorem step_exportVar (h : s.step (.exportVar x) = .ok () s') :
    ∃ scope, s.scope.exportVar x = .ok () scope ∧ s' = { s with scope := scope } := by
  simp only [step] at h
  unfold exportVar at h
  split at h
  · cases h; exact ⟨_, ‹_›, rfl⟩
  · cases h

theorem step_exportVar_error {fault : Fault} (h : s.step (.exportVar x) = .error fault s') :
    ∃ scope, s.scope.exportVar x = .error fault scope ∧ s' = { s with scope := scope } := by
  simp only [step] at h
  unfold exportVar at h
  split at h
  · cases h
  · cases h; exact ⟨_, ‹_›, rfl⟩

theorem run_cons {stmt : Source.Stmt} {rest : Source.Program}
    (h : s.run (stmt :: rest) = .ok () s') :
    ∃ s₁, s.step stmt = .ok () s₁ ∧ s₁.run rest = .ok () s' := by
  rw [run] at h
  split at h
  · exact ⟨_, ‹_›, h⟩
  · cases h

end Session

end Straightline
