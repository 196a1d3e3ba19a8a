import Straightline.Proofs.Denotation
import Straightline.Proofs.Naming
import Straightline.Proofs.Scoping

/-!
# Lowering preserves meaning

A source program and the target program it is lowered to compute the same: after the target program has
run, every variable of the source program is found in the target variables it lives in, with the value
that direct evaluation gives it.

The proof follows a session statement by statement.  `Simulates` ties the state of the session to that
of direct evaluation and to the store that the assignments emitted so far lead to.  Its last two fields
say why later assignments do no harm: the target variables of a bound name are in use, and a name that
is not in use has not been touched.  An assignment only ever goes to a name that was not in use, also
among the elements of one vector, which are assigned one after the other.
-/

namespace Straightline

open Source (Datum Environment Evaluates)
open Target (Store)

namespace Source.Datum

/-- The target variables that a value bound to `x` lives in. -/
def cells (x : String) : Datum → List String
  | number _ => [x]
  | array ns => Value.elementNames x 0 ns.length

/-- The lowered value that refers to those variables. -/
def reference (x : String) : Datum → Value
  | number _ => .scalar (.ident x)
  | array ns => .vector ((Value.elementNames x 0 ns.length).map .ident)

/-- **A value is held in a store** by the variables that it lives in when it is bound to `x`. -/
def HeldIn (s : Store) (x : String) (d : Datum) : Prop := (d.cells x).map s.get = d.numbers

theorem HeldIn.congr {s t : Store} {x : String} {d : Datum} (h : d.HeldIn s x)
    (hst : ∀ y ∈ d.cells x, t.get y = s.get y) : d.HeldIn t x := by
  rw [HeldIn, List.map_congr_left hst]
  exact h

end Source.Datum

section
variable [Elementary]

/-! ## References -/

theorem Source.Datum.HeldIn.denotes {s : Store} {x : String} {d : Datum} (h : d.HeldIn s x) :
    Denotes s (d.reference x) d := by
  cases d with
  | number n =>
    have hn : s.get x = n := (List.cons.inj h).1
    rw [← hn]
    rfl
  | array ns =>
    change (Value.elementNames x 0 ns.length).map s.get = ns at h
    change Yield s ((Value.elementNames x 0 ns.length).map .ident) ns
    generalize Value.elementNames x 0 ns.length = names at h ⊢
    subst h
    rw [Yield, List.forall₂_map_left_iff, List.forall₂_map_right_iff, List.forall₂_same]
    exact fun _ _ => rfl

theorem Denotes.parts_eq {s : Store} {v : Value} {d : Datum} (h : Denotes s v d) (x : String) :
    v.parts x = (d.cells x).zip v.scalars := by
  cases v <;> cases d
  case scalar.number => rfl
  case vector.array es ns => rw [Value.parts, List.Forall₂.length_eq h]; rfl
  all_goals exact h.elim

theorem Denotes.reference_eq {s : Store} {v : Value} {d : Datum} (h : Denotes s v d)
    (x : String) : v.reference x = d.reference x := by
  cases v <;> cases d
  case scalar.number => rfl
  case vector.array es ns => rw [Value.reference, List.Forall₂.length_eq h]; rfl
  all_goals exact h.elim

theorem Denotes.length_cells {s : Store} {v : Value} {d : Datum} (h : Denotes s v d)
    (x : String) : (d.cells x).length = v.scalars.length := by
  cases v <;> cases d
  case scalar.number => rfl
  case vector.array es ns =>
    rw [Source.Datum.cells, Value.length_elementNames, Value.scalars, List.Forall₂.length_eq h]
  all_goals exact h.elim

omit [Elementary] in
theorem pairwise_lower_cells (x : String) (d : Datum) :
    (d.cells x).Pairwise fun y z => Text.lower y ≠ Text.lower z := by
  cases d with
  | number n => exact List.pairwise_singleton _ _
  | array ns => exact Value.pairwise_lower_elementNames x 0 ns.length

/-! ## A row of assignments -/

/-- **Assigning expressions to names that stay apart under lower case**, none of which the expressions
depend on: afterwards the names hold the values and nothing else has changed.  `S` is what the
expressions do depend on. -/
theorem run_zip_assign {S : Store → Prop} {names : List String} {es : List Target.Expr}
    {ns : List Number} (hlen : names.length = es.length) (hyield : ∀ s, S s → Yield s es ns)
    (hapart : names.Pairwise fun y z => Text.lower y ≠ Text.lower z)
    (hkeep : ∀ s y v, y ∈ names → S s → S (s.set y v)) {s : Store} (hs : S s) :
    ∃ t, s.run ((names.zip es).map fun p => .assign p.1 p.2) = .ok () t ∧
      names.map t.get = ns ∧
      ∀ y, (∀ x ∈ names, Text.lower y ≠ Text.lower x) → t.get y = s.get y := by
  induction names generalizing es ns s with
  | nil =>
    obtain rfl : es = [] := List.length_eq_zero_iff.mp hlen.symm
    obtain rfl : ns = [] := List.forall₂_nil_left_iff.mp (hyield s hs)
    exact ⟨s, rfl, rfl, fun _ _ => rfl⟩
  | cons x names ih =>
    obtain _ | ⟨e, es⟩ := es
    · cases hlen
    obtain ⟨n, ns', he, _, rfl⟩ := List.forall₂_cons_left_iff.mp (hyield s hs)
    obtain ⟨hx, hapart⟩ := List.pairwise_cons.mp hapart
    obtain ⟨t, hrun, hnames, hframe⟩ := ih (Nat.succ.inj hlen)
      (fun s' hs' => (List.forall₂_cons.mp (hyield s' hs')).2) hapart
      (fun s' y v hy => hkeep s' y v (List.mem_cons_of_mem _ hy))
      (hkeep s x n List.mem_cons_self hs)
    refine ⟨t, ?_, ?_, ?_⟩
    · rw [List.zip_cons_cons, List.map_cons, Store.run_assign_of_ok he]
      exact hrun
    · rw [List.map_cons, hnames, hframe x hx, Store.get_set_self]
    · intro y hy
      rw [hframe y (fun z hz => hy z (List.mem_cons_of_mem _ hz)),
        Store.get_set_of_lower_ne _ _ (hy x List.mem_cons_self)]

/-! ## Sessions -/

/-- **A session in step with direct evaluation**: `s` is the store that the assignments emitted so far
lead to from `s₀`. -/
structure Simulates (s₀ : Store) (session : Session) (env : Environment) (s : Store) : Prop where
  run : s₀.run session.emitted = .ok () s
  functions : session.scope.functions = env.functions
  bindings : ∀ x d, env.values.get? x = some d →
    session.scope.bindings.get? x = some (d.reference x)
  held : ∀ x d, env.values.get? x = some d → d.HeldIn s x
  inUse : ∀ x d, env.values.get? x = some d → ∀ y ∈ d.cells x, session.scope.spelling? y ≠ none
  untouched : ∀ y, session.scope.spelling? y = none → s.get y = s₀.get y

namespace Simulates

variable {s₀ s : Store} {session session' : Session} {env : Environment} {x : String}

theorem initial (s₀ : Store) : Simulates s₀ {} {} s₀ where
  run := rfl
  functions := rfl
  bindings := fun _ _ h => nomatch h
  held := fun _ _ h => nomatch h
  inUse := fun _ _ h => nomatch h
  untouched := fun _ _ => rfl

/-- Binding a name whose cells `t` holds, and which were not in use before. -/
theorem bind {t : Store} {d : Datum} (h : Simulates s₀ session env s) (names : List String)
    (hrun : s₀.run session'.emitted = .ok () t)
    (hfun : session'.scope.functions = session.scope.functions)
    (hbind : session'.scope.bindings = session.scope.bindings.set x (d.reference x))
    (hspell : session'.scope.spellings = names.foldl Scope.spell session.scope.spellings)
    (hcells : ∀ y ∈ d.cells x, y ∈ names) (hfree : ∀ y ∈ names, session.scope.spelling? y = none)
    (hheld : d.HeldIn t x)
    (hframe : ∀ y, (∀ z ∈ names, Text.lower y ≠ Text.lower z) → t.get y = s.get y) :
    Simulates s₀ session' (env.bind x d) t := by
  have hspelling : ∀ y, session'.scope.spelling? y ≠ none ↔
      session.scope.spelling? y ≠ none ∨ ∃ z ∈ names, Text.lower z = Text.lower y := by
    intro y
    rw [Scope.spelling?, hspell, ← Option.isSome_iff_ne_none, ← Option.isSome_iff_ne_none]
    exact Scope.isSome_get?_foldl_spell names _ _
  have hold : ∀ y d', (env.bind x d).values.get? y = some d' →
      (y = x ∧ d' = d) ∨ (y ≠ x ∧ env.values.get? y = some d') := by
    intro y d' hy
    by_cases hyx : y = x
    · subst hyx
      rw [Environment.bind, Table.get?_set_self] at hy
      exact Or.inl ⟨rfl, (Option.some.inj hy).symm⟩
    · rw [Environment.bind, Table.get?_set_of_ne _ _ hyx] at hy
      exact Or.inr ⟨hyx, hy⟩
  refine ⟨hrun, hfun.trans h.functions, ?_, ?_, ?_, ?_⟩
  · intro y d' hy
    rw [hbind]
    rcases hold y d' hy with ⟨rfl, rfl⟩ | ⟨hyx, hy⟩
    · exact Table.get?_set_self _ _ _
    · rw [Table.get?_set_of_ne _ _ hyx]
      exact h.bindings y d' hy
  · intro y d' hy
    rcases hold y d' hy with ⟨rfl, rfl⟩ | ⟨_, hy⟩
    · exact hheld
    · refine (h.held y d' hy).congr fun z hz => hframe z fun w hw => ?_
      exact Scope.lower_ne_of_spelling? (hfree w hw) (h.inUse y d' hy z hz)
  · intro y d' hy z hz
    rw [hspelling]
    rcases hold y d' hy with ⟨rfl, rfl⟩ | ⟨_, hy⟩
    · exact Or.inr ⟨z, hcells z hz, rfl⟩
    · exact Or.inl (h.inUse y d' hy z hz)
  · intro y hy
    have hnot := mt (hspelling y).mpr (not_not_intro hy)
    rw [not_or, not_not] at hnot
    rw [hframe y (fun z hz heq => hnot.2 ⟨z, hz, heq.symm⟩)]
    exact h.untouched y hnot.1

theorem importVar {inputs : String → Number} (h : Simulates s₀ session env s)
    (hstep : session.step (.importVar x) = .ok () session') (hinput : s₀.get x = inputs x) :
    Simulates s₀ session' (env.bind x (.number (inputs x))) s := by
  obtain ⟨scope, hscope, rfl⟩ := Session.step_importVar hstep
  obtain ⟨⟨_, _, _, hfree⟩, rfl⟩ := Scope.importVar_eq_ok hscope
  refine h.bind [x] h.run rfl rfl rfl (fun y hy => hy) ?_ ?_ (fun _ _ => rfl)
  · intro y hy
    rw [List.mem_singleton.mp hy]
    exact hfree
  · change [s.get x] = [inputs x]
    rw [h.untouched x hfree, hinput]

theorem define {params : List String} {body : Source.Expr} (h : Simulates s₀ session env s)
    (hstep : session.step (.define x params body) = .ok () session') :
    Simulates s₀ session' (env.define ⟨x, params, body⟩) s := by
  obtain ⟨scope, hscope, rfl⟩ := Session.step_define hstep
  obtain ⟨_, rfl⟩ := Scope.define_eq_ok hscope
  refine ⟨h.run, ?_, h.bindings, h.held, h.inUse, h.untouched⟩
  rw [Environment.define, ← h.functions]

theorem exportVar (h : Simulates s₀ session env s)
    (hstep : session.step (.exportVar x) = .ok () session') : Simulates s₀ session' env s := by
  obtain ⟨scope, hscope, rfl⟩ := Session.step_exportVar hstep
  obtain ⟨v, xs, _, rfl⟩ := Scope.exportVar_eq_ok hscope
  exact ⟨h.run, h.functions, h.bindings, h.held, h.inUse, h.untouched⟩

theorem letVar {e : Source.Expr} {depth : Nat} {d : Datum} (h : Simulates s₀ session env s)
    (hstep : session.step (.letVar x e) = .ok () session') (hd : env.eval depth e = some d) :
    ∃ t, Simulates s₀ session' (env.bind x d) t := by
  obtain ⟨v, checked, scope, stmts, hlower, hlet, rfl⟩ := Session.step_letVar hstep
  obtain ⟨⟨_, _, _, hfree⟩, rfl, rfl⟩ := Scope.letVar_eq_ok hlet
  -- the expressions depend on nothing but the values of the bound variables
  let S : Store → Prop := fun t => ∀ y d', env.values.get? y = some d' → d'.HeldIn t y
  have hden : ∀ t, S t → Denotes t v d := computes_lower h.functions
    (fun y d' hy => ⟨_, h.bindings y d' hy, fun t ht => (ht y d' hy).denotes⟩) hd _ _ _ hlower
  have hv := hden s h.held
  have hparts : v.parts x = (d.cells x).zip v.scalars := hv.parts_eq x
  have hnames : (v.parts x).map (·.1) = d.cells x := by
    rw [hparts, List.map_fst_zip (Nat.le_of_eq (hv.length_cells x))]
  rw [hnames] at hfree
  have hkeep : ∀ t y n, y ∈ d.cells x → S t → S (t.set y n) := by
    intro t y n hy ht z d' hz
    refine (ht z d' hz).congr fun w hw => Store.get_set_of_lower_ne _ _ ?_
    exact Scope.lower_ne_of_spelling? (hfree y (List.mem_cons_of_mem _ hy)) (h.inUse z d' hz w hw)
  obtain ⟨t, hrun, hheld, hframe⟩ := run_zip_assign (hv.length_cells x)
    (fun t ht => (hden t ht).yield) (pairwise_lower_cells x d) hkeep h.held
  refine ⟨t, h.bind (x :: d.cells x) ?_ rfl ?_ ?_
    (fun y hy => List.mem_cons_of_mem _ hy) hfree hheld
    (fun y hy => hframe y fun z hz => hy z (List.mem_cons_of_mem _ hz))⟩
  · rw [Store.run_append h.run, hparts]
    exact hrun
  · rw [hv.reference_eq]
  · rw [hnames]

/-- A run of a session stays in step with direct evaluation. -/
theorem run_program {inputs : String → Number} {p : Source.Program} {env' : Environment}
    (h : Simulates s₀ session env s) (heval : Evaluates inputs env p env')
    (hrun : session.run p = .ok () session')
    (hinputs : ∀ x, .importVar x ∈ p → s₀.get x = inputs x) :
    ∃ t, Simulates s₀ session' env' t := by
  induction heval generalizing session s with
  | nil env =>
    cases hrun
    exact ⟨s, h⟩
  | importVar _ ih =>
    obtain ⟨s₁, hstep, hrun⟩ := Session.run_cons hrun
    exact ih (h.importVar hstep (hinputs _ List.mem_cons_self)) hrun
      fun y hy => hinputs y (List.mem_cons_of_mem _ hy)
  | define _ ih =>
    obtain ⟨s₁, hstep, hrun⟩ := Session.run_cons hrun
    exact ih (h.define hstep) hrun fun y hy => hinputs y (List.mem_cons_of_mem _ hy)
  | letVar depth d hd _ ih =>
    obtain ⟨s₁, hstep, hrun⟩ := Session.run_cons hrun
    obtain ⟨t, ht⟩ := h.letVar hstep hd
    exact ih ht hrun fun y hy => hinputs y (List.mem_cons_of_mem _ hy)
  | exportVar _ ih =>
    obtain ⟨s₁, hstep, hrun⟩ := Session.run_cons hrun
    exact ih (h.exportVar hstep) hrun fun y hy => hinputs y (List.mem_cons_of_mem _ hy)

end Simulates

/-! ## Programs -/

/-- Direct evaluation gives every imported and every bound variable a value. -/
theorem Source.Evaluates.exists_value {inputs : String → Number} {env env' : Environment}
    {p : Source.Program} (h : Evaluates inputs env p env') (x : String)
    (hx : (∃ d, env.values.get? x = some d) ∨ .importVar x ∈ p ∨ ∃ e, .letVar x e ∈ p) :
    ∃ d, env'.values.get? x = some d := by
  have hbind : ∀ (env : Environment) (y : String) (d : Datum),
      (∃ d, env.values.get? x = some d) ∨ x = y → ∃ d', (env.bind y d).values.get? x = some d' := by
    intro env y d hx
    by_cases hxy : x = y
    · subst hxy
      exact ⟨d, Table.get?_set_self _ _ _⟩
    · rw [Environment.bind, Table.get?_set_of_ne _ _ hxy]
      exact hx.resolve_right hxy
  induction h with
  | nil env =>
    rcases hx with hx | hx | ⟨e, hx⟩
    · exact hx
    all_goals cases hx
  | importVar _ ih =>
    refine ih ?_
    rcases hx with hx | hx | ⟨e, hx⟩
    · exact Or.inl (hbind _ _ _ (Or.inl hx))
    · rcases List.mem_cons.mp hx with hx | hx
      · exact Or.inl (hbind _ _ _ (Or.inr (Source.Stmt.importVar.inj hx)))
      · exact Or.inr (Or.inl hx)
    · exact Or.inr (Or.inr ⟨e, (List.mem_cons.mp hx).resolve_left nofun⟩)
  | letVar depth d _ _ ih =>
    refine ih ?_
    rcases hx with hx | hx | ⟨e, hx⟩
    · exact Or.inl (hbind _ _ _ (Or.inl hx))
    · exact Or.inr (Or.inl ((List.mem_cons.mp hx).resolve_left nofun))
    · rcases List.mem_cons.mp hx with hx | hx
      · exact Or.inl (hbind _ _ _ (Or.inr (Source.Stmt.letVar.inj hx).1))
      · exact Or.inr (Or.inr ⟨e, hx⟩)
  | define _ ih | exportVar _ ih =>
    refine ih ?_
    rcases hx with hx | hx | ⟨e, hx⟩
    · exact Or.inl hx
    · exact Or.inr (Or.inl ((List.mem_cons.mp hx).resolve_left nofun))
    · exact Or.inr (Or.inr ⟨e, (List.mem_cons.mp hx).resolve_left nofun⟩)

/-- **Lowering preserves meaning.**  Let a source program be accepted, and let direct evaluation of it
succeed with `inputs` as the values of its imports.  Then the target program runs to its end from every
store that holds these inputs, and afterwards the target variables of each imported or bound name hold
the value that direct evaluation gives it. -/
theorem run_lowerProgram {p : Source.Program} {out : Output} (hp : lowerProgram p = .ok out)
    {inputs : String → Number} {env : Environment} (heval : Evaluates inputs {} p env)
    {s : Store} (hinputs : ∀ x, .importVar x ∈ p → s.get x = inputs x) :
    ∃ t, s.run out.stmts = .ok () t ∧
      ∀ x, (.importVar x ∈ p ∨ ∃ e, .letVar x e ∈ p) →
        ∃ d, env.values.get? x = some d ∧ (d.cells x).map t.get = d.numbers := by
  unfold lowerProgram at hp
  split at hp
  · rename_i session hrun
    obtain rfl := Except.ok.inj hp
    obtain ⟨t, ht⟩ := (Simulates.initial s).run_program heval hrun hinputs
    refine ⟨t, ht.run, fun x hx => ?_⟩
    obtain ⟨d, hd⟩ := heval.exists_value x (Or.inr hx)
    exact ⟨d, hd, ht.held x d hd⟩
  · cases hp

end

/-- A program with an import, a function, vectors and a reduction:
`import a; define scale(v, k) = v * k; let xs = [a, 2]; let ys = scale(xs, 3); let t = sum(ys, a)`. -/
def scaling : Source.Program :=
  [.importVar "a",
    .define "scale" ["v", "k"] (.binary (.ident "v") .mul (.ident "k")),
    .letVar "xs" (.array [.ident "a", .literal (.ofInt 2)]),
    .letVar "ys" (.call "scale" [.ident "xs", .literal (.ofInt 3)]),
    .letVar "t" (.fold .add [.ident "ys", .ident "a"])]

/-- What `scaling` is lowered to. -/
def scalingOutput : Output where
  stmts :=
    [.assign "xs_0" (.ident "a"),
      .assign "xs_1" (.literal (.ofInt 2)),
      .assign "ys_0" (.binary (.ident "xs_0") .mul (.literal (.ofInt 3))),
      .assign "ys_1" (.binary (.ident "xs_1") .mul (.literal (.ofInt 3))),
      .assign "t" (.binary (.binary (.binary (.literal .zero) .add (.ident "ys_0")) .add
        (.ident "ys_1")) .add (.ident "a"))]
  roots := []

/-- Run with `5` for `a`, the program finds `15`, `6` and their sum with `a`. -/
theorem run_scaling :
    ∃ t, Store.run ⟨[("a", .ofInt 5)]⟩ scalingOutput.stmts = .ok () t ∧
      t.get "ys_0" = .ofInt 15 ∧ t.get "ys_1" = .ofInt 6 ∧ t.get "t" = .ofInt 26 := by
  have hout : lowerProgram scaling = .ok scalingOutput := by decide +kernel
  have heval : Evaluates (fun _ => .ofInt 5) {} scaling
      ⟨[("a", .number (.ofInt 5)), ("xs", .array [.ofInt 5, .ofInt 2]),
        ("ys", .array [.ofInt 15, .ofInt 6]), ("t", .number (.ofInt 26))],
        [("scale", ⟨"scale", ["v", "k"], .binary (.ident "v") .mul (.ident "k")⟩)]⟩ := by
    refine .importVar (.define (.letVar 0 (.array [.ofInt 5, .ofInt 2]) ?_
      (.letVar 1 (.array [.ofInt 15, .ofInt 6]) ?_ (.letVar 0 (.number (.ofInt 26)) ?_ ?_))))
    · decide +kernel
    · decide +kernel
    · decide +kernel
    · exact .nil _
  have hinputs : ∀ x, .importVar x ∈ scaling →
      Store.get ⟨[("a", .ofInt 5)]⟩ x = (fun _ => .ofInt 5) x := by
    intro x hx
    simp only [scaling, List.mem_cons, Source.Stmt.importVar.injEq, reduceCtorEq,
      List.not_mem_nil, or_false] at hx
    subst hx
    decide +kernel
  obtain ⟨t, hrun, hheld⟩ := run_lowerProgram hout heval hinputs
  have hys : (Datum.array [.ofInt 15, .ofInt 6]).HeldIn t "ys" := by
    obtain ⟨d, hd, h⟩ := hheld "ys" (Or.inr ⟨_, by simp [scaling]; rfl⟩)
    obtain rfl : _ = d := Option.some.inj hd
    exact h
  have ht : (Datum.number (.ofInt 26)).HeldIn t "t" := by
    obtain ⟨d, hd, h⟩ := hheld "t" (Or.inr ⟨_, by simp [scaling]; rfl⟩)
    obtain rfl : _ = d := Option.some.inj hd
    exact h
  obtain ⟨h₀, h₁⟩ := List.cons.inj hys
  exact ⟨t, hrun, h₀, (List.cons.inj h₁).1, (List.cons.inj ht).1⟩

end Straightline
