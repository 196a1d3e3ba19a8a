import Straightline.Proofs.Coupling
import Straightline.Proofs.Histories
import Straightline.Proofs.Naming
import Straightline.Target.Liveness

/-!
# The names of a session

The target language does not tell names apart by case.  So the target variables of a session, the
imported and the assigned ones, must differ by more than case, and whatever refers to one of them must
use its spelling.  `Session.WellNamed` says this of all places where a session keeps names, and every
statement keeps it, accepted or not.

It follows that a bound name always refers to target variables.  An export can then fail only before it
records anything, and a refused statement leaves scope and program alone (`refused_step_atomic`).
-/

namespace Straightline

/-! ## What a program reads -/

namespace Target

/-- The variable that a statement assigns. -/
def Stmt.target? : Stmt → Option String
  | .assign x _ => some x
  | .stray _ => none

/-- The variables that a program assigns, in order. -/
def targets (stmts : List Stmt) : List String := stmts.filterMap Stmt.target?

/-- **The expression reads only** variables in `known`. -/
def Expr.ReadsOnly (known : List String) (e : Expr) : Prop := ∃ xs, e.reads = .ok xs ∧ xs ⊆ known

/-- **Every statement reads only** variables in `known` and targets of statements before it. -/
def Grounded (known : List String) : List Stmt → Prop
  | [] => True
  | .assign x e :: rest => e.ReadsOnly known ∧ Grounded (x :: known) rest
  | .stray _ :: _ => False

variable {known known' : List String}

theorem targets_append (p q : List Stmt) : targets (p ++ q) = targets p ++ targets q :=
  List.filterMap_append

theorem targets_map_assign (parts : List (String × Expr)) :
    targets (parts.map fun part => .assign part.1 part.2) = parts.map (·.1) := by
  rw [targets, List.filterMap_map, ← List.filterMap_eq_map]
  rfl

theorem Expr.ReadsOnly.mono {e : Expr} (h : e.ReadsOnly known) (hsub : known ⊆ known') :
    e.ReadsOnly known' :=
  let ⟨xs, hreads, hxs⟩ := h
  ⟨xs, hreads, List.Subset.trans hxs hsub⟩

theorem Expr.hereditary_readsOnly (known : List String) : Hereditary (ReadsOnly known) where
  literal _ := ⟨[], rfl, List.nil_subset _⟩
  unary _ _ h := h
  binary l op r hl hr := by
    obtain ⟨xs, hxs, hsub⟩ := hl
    obtain ⟨ys, hys, hsub'⟩ := hr
    refine ⟨xs ++ ys, ?_, List.append_subset.mpr ⟨hsub, hsub'⟩⟩
    rw [reads, hxs, hys]
    rfl

namespace Grounded

theorem mono {p : List Stmt} (h : Grounded known p) (hsub : known ⊆ known') :
    Grounded known' p := by
  induction p generalizing known known' with
  | nil => trivial
  | cons stmt p ih =>
    cases stmt with
    | assign x e => exact ⟨h.1.mono hsub, ih h.2 (List.cons_subset_cons x hsub)⟩
    | stray node => exact h.elim

theorem append {p q : List Stmt} (hp : Grounded known p) (hq : Grounded (known ++ targets p) q) :
    Grounded known (p ++ q) := by
  induction p generalizing known with
  | nil => exact hq.mono (by simp [targets])
  | cons stmt p ih =>
    cases stmt with
    | assign x e =>
      -- The target moves from the front of `targets` to the front of `known`.
      have hsub : known ++ x :: targets p ⊆ x :: known ++ targets p :=
        List.perm_middle.subset
      exact ⟨hp.1, ih hp.2 (hq.mono hsub)⟩
    | stray node => exact hp.elim

/-- What the statement after `before` reads is known or assigned in `before`. -/
theorem at_append {before rest : List Stmt} {stmt : Stmt}
    (h : Grounded known (before ++ stmt :: rest)) :
    ∃ x e, stmt = .assign x e ∧ e.ReadsOnly (known ++ targets before) := by
  induction before generalizing known with
  | nil =>
    cases stmt with
    | assign x e => exact ⟨x, e, rfl, h.1.mono (List.subset_append_left _ _)⟩
    | stray node => exact h.elim
  | cons first before ih =>
    cases first with
    | assign y e' =>
      obtain ⟨x, e, hstmt, hreads⟩ := ih h.2
      exact ⟨x, e, hstmt, hreads.mono List.perm_middle.symm.subset⟩
    | stray node => exact h.elim

theorem map_assign {parts : List (String × Expr)} (h : ∀ part ∈ parts, part.2.ReadsOnly known) :
    Grounded known (parts.map fun part => .assign part.1 part.2) := by
  induction parts generalizing known with
  | nil => trivial
  | cons part parts ih =>
    obtain ⟨hpart, hparts⟩ := List.forall_mem_cons.mp h
    exact ⟨hpart, ih fun q hq => (hparts q hq).mono (List.subset_cons_self _ _)⟩

end Grounded

end Target

/-! ## The target variables of a value -/

namespace Value

variable {x y z : String} {known : List String}

/-- **The value refers to variables** in `known`. -/
def RefersTo (known : List String) (v : Value) : Prop := ∀ e ∈ v.scalars, ∃ y ∈ known, e = .ident y

theorem RefersTo.mono {known' : List String} {v : Value} (h : v.RefersTo known)
    (hsub : known ⊆ known') : v.RefersTo known' := fun e he =>
  let ⟨y, hy, hey⟩ := h e he
  ⟨y, hsub hy, hey⟩

theorem RefersTo.made {v : Value} (h : v.RefersTo known) : v.Made (Target.Expr.ReadsOnly known) := by
  intro e he
  obtain ⟨y, hy, rfl⟩ := h e he
  exact ⟨[y], rfl, List.cons_subset.mpr ⟨hy, List.nil_subset _⟩⟩

/-- The variables of a value that refers to some are found, and are among them. -/
theorem RefersTo.cells {v : Value} (h : v.RefersTo known) : ∃ xs, v.cells = .ok xs ∧ xs ⊆ known := by
  rw [RefersTo] at h
  rw [Value.cells]
  generalize v.scalars = es at h ⊢
  induction es with
  | nil => exact ⟨[], rfl, List.nil_subset _⟩
  | cons e es ih =>
    obtain ⟨⟨y, hy, rfl⟩, hes⟩ := List.forall_mem_cons.mp h
    obtain ⟨xs, hxs, hsub⟩ := ih hes
    refine ⟨y :: xs, ?_, List.cons_subset.mpr ⟨hy, hsub⟩⟩
    rw [List.mapM_cons, hxs]
    rfl

theorem map_fst_parts_vector (x : String) (es : List Target.Expr) :
    ((vector es).parts x).map (·.1) = elementNames x 0 es.length :=
  List.map_fst_zip (Nat.le_of_eq (length_elementNames x 0 es.length))

theorem scalars_reference (x : String) (v : Value) :
    (v.reference x).scalars = ((v.parts x).map (·.1)).map .ident := by
  cases v with
  | scalar e => rfl
  | vector es => rw [map_fst_parts_vector]; rfl

theorem mem_scalars_of_mem_parts {v : Value} {part : String × Target.Expr} (h : part ∈ v.parts x) :
    part.2 ∈ v.scalars := by
  cases v with
  | scalar e => rw [List.mem_singleton.mp h]; exact List.mem_cons_self
  | vector es => exact (List.of_mem_zip h).2

theorem pairwise_lower_parts (x : String) (v : Value) :
    ((v.parts x).map (·.1)).Pairwise fun y z => Text.lower y ≠ Text.lower z := by
  cases v with
  | scalar e => exact List.pairwise_singleton _ _
  | vector es =>
    rw [map_fst_parts_vector]
    exact pairwise_lower_elementNames x 0 es.length

theorem eq_or_elementName_of_mem_parts {v : Value} (h : y ∈ (v.parts x).map (·.1)) :
    y = x ∨ ∃ i, y = elementName x i := by
  cases v with
  | scalar e => exact Or.inl (List.mem_singleton.mp h)
  | vector es =>
    rw [map_fst_parts_vector] at h
    obtain ⟨i, _, _, hy⟩ := mem_elementNames.mp h
    exact Or.inr ⟨i, hy⟩

/-- A name and the names of its elements are told apart by the target language. -/
theorem eq_of_lower_eq {v : Value} (hy : y ∈ x :: (v.parts x).map (·.1))
    (hz : z ∈ x :: (v.parts x).map (·.1)) (h : Text.lower y = Text.lower z) : y = z := by
  have hcases : ∀ u ∈ x :: (v.parts x).map (·.1), u = x ∨ ∃ i, u = elementName x i :=
    List.forall_mem_cons.mpr ⟨Or.inl rfl, fun _ => eq_or_elementName_of_mem_parts⟩
  obtain rfl | ⟨i, rfl⟩ := hcases y hy
  · obtain rfl | ⟨j, rfl⟩ := hcases z hz
    · rfl
    · exact absurd h.symm (lower_elementName_ne y j)
  · obtain rfl | ⟨j, rfl⟩ := hcases z hz
    · exact absurd h (lower_elementName_ne z i)
    · rw [elementName_index_eq h]

end Value

/-! ## The table of spellings -/

namespace Scope

theorem get?_foldl_spell_of_ne {names : List String} {key : String} (t : Table String)
    (h : ∀ y ∈ names, Text.lower y ≠ key) : (names.foldl spell t).get? key = t.get? key := by
  induction names generalizing t with
  | nil => rfl
  | cons x names ih =>
    obtain ⟨hx, hnames⟩ := List.forall_mem_cons.mp h
    rw [List.foldl_cons, ih _ hnames, spell, Table.get?_set_of_ne _ _ hx.symm]

/-- Names that differ by more than case are all found in their spelling once they are entered. -/
theorem get?_foldl_spell {names : List String} {x : String} (t : Table String)
    (hapart : ∀ y ∈ names, ∀ z ∈ names, Text.lower y = Text.lower z → y = z) (hx : x ∈ names) :
    (names.foldl spell t).get? (Text.lower x) = some x := by
  induction names generalizing t with
  | nil => cases hx
  | cons y names ih =>
    rw [List.foldl_cons]
    by_cases hmem : x ∈ names
    · exact ih _ (fun u hu w hw =>
        hapart u (List.mem_cons_of_mem _ hu) w (List.mem_cons_of_mem _ hw)) hmem
    · obtain rfl : x = y := (List.mem_cons.mp hx).resolve_right hmem
      -- No later name replaces the entry, as it would have to be `x` itself.
      have hne : ∀ z ∈ names, Text.lower z ≠ Text.lower x := fun z hz hlower =>
        hmem (hapart z (List.mem_cons_of_mem _ hz) x List.mem_cons_self hlower ▸ hz)
      rw [get?_foldl_spell_of_ne _ hne, spell, Table.get?_set_self]

theorem mem_foldl_insert {xs rs : List String} {y : String} :
    y ∈ xs.foldl (fun rs x => rs.insert x) rs ↔ y ∈ rs ∨ y ∈ xs := by
  induction xs generalizing rs with
  | nil => simp
  | cons x xs ih =>
    rw [List.foldl_cons, ih, List.mem_insert_iff, List.mem_cons, or_assoc, or_left_comm]

end Scope

/-! ## Sessions -/

namespace Session

variable {s : Session} {x : String}

/-- The target variables of a session: the imported and the assigned ones. -/
def cells (s : Session) : List String := s.scope.imports ++ Target.targets s.emitted

/-- **The names of a session are in order.** -/
structure WellNamed (s : Session) : Prop where
  /-- No two target variables differ by case alone. -/
  apart : s.cells.Pairwise fun y z => Text.lower y ≠ Text.lower z
  /-- A statement reads imported variables and those assigned before it. -/
  grounded : Target.Grounded s.scope.imports s.emitted
  roots : s.scope.roots ⊆ s.cells
  /-- A bound name refers to target variables. -/
  references : ∀ y v, s.scope.bindings.get? y = some v → v.RefersTo s.cells
  /-- The names in use are entered in their own spelling. -/
  spelled : ∀ y, y ∈ s.cells ∨ s.scope.bindings.has y = true → s.scope.spelling? y = some y

namespace WellNamed

theorem initial : WellNamed {} where
  apart := List.Pairwise.nil
  grounded := trivial
  roots := List.nil_subset _
  references _ _ h := nomatch h
  spelled y h := by
    rcases h with h | h
    · cases h
    · cases h

/-- A name in use differs by more than case from a free one. -/
theorem lower_ne_of_free {y z : String} (h : s.WellNamed)
    (hused : y ∈ s.cells ∨ s.scope.bindings.has y = true) (hfree : s.scope.spelling? z = none) :
    Text.lower y ≠ Text.lower z := by
  refine Scope.lower_ne_of_spelling? hfree ?_
  rw [h.spelled y hused]
  nofun

/-- **Binding a name to new target variables** keeps the names in order, if all names entered on that
occasion are free and apart from each other. -/
theorem bind {t : Session} {v : Value} (h : s.WellNamed) (names entered : List String)
    (hfree : ∀ y ∈ entered, s.scope.spelling? y = none)
    (hentered : ∀ y ∈ entered, ∀ z ∈ entered, Text.lower y = Text.lower z → y = z)
    (hx : x ∈ entered) (hnames : names ⊆ entered)
    (hapart : names.Pairwise fun y z => Text.lower y ≠ Text.lower z)
    (hv : v.scalars = names.map .ident) (hcells : t.cells.Perm (s.cells ++ names))
    (hbindings : t.scope.bindings = s.scope.bindings.set x v)
    (hspellings : t.scope.spellings = entered.foldl Scope.spell s.scope.spellings)
    (hroots : t.scope.roots = s.scope.roots)
    (hgrounded : Target.Grounded t.scope.imports t.emitted) : t.WellNamed where
  apart := by
    refine (hcells.pairwise_iff Ne.symm).mpr (List.pairwise_append.mpr ⟨h.apart, hapart, ?_⟩)
    exact fun y hy z hz => h.lower_ne_of_free (Or.inl hy) (hfree z (hnames hz))
  grounded := hgrounded
  roots y hy := hcells.mem_iff.mpr (List.mem_append_left _ (h.roots (hroots ▸ hy)))
  references y w hw := by
    rw [hbindings] at hw
    by_cases hy : y = x
    · rw [hy, Table.get?_set_self] at hw
      cases hw
      intro e he
      rw [hv] at he
      obtain ⟨z, hz, rfl⟩ := List.mem_map.mp he
      exact ⟨z, hcells.mem_iff.mpr (List.mem_append_right _ hz), rfl⟩
    · rw [Table.get?_set_of_ne _ _ hy] at hw
      exact (h.references y w hw).mono fun z hz => hcells.mem_iff.mpr (List.mem_append_left _ hz)
  spelled y hy := by
    -- A name in use is one of those just entered, or it was in use before.
    have hcases : y ∈ entered ∨ y ∈ s.cells ∨ s.scope.bindings.has y = true := by
      rcases hy with hy | hy
      · exact (List.mem_append.mp (hcells.mem_iff.mp hy)).elim (Or.inr ∘ Or.inl)
          (Or.inl ∘ (hnames ·))
      · by_cases hyx : y = x
        · exact Or.inl (hyx ▸ hx)
        · rw [hbindings, Table.has, Table.get?_set_of_ne _ _ hyx] at hy
          exact Or.inr (Or.inr hy)
    rw [Scope.spelling?, hspellings]
    rcases hcases with hy | hy
    · exact Scope.get?_foldl_spell _ hentered hy
    · have hne : ∀ z ∈ entered, Text.lower z ≠ Text.lower y := fun z hz =>
        (h.lower_ne_of_free hy (hfree z hz)).symm
      rw [Scope.get?_foldl_spell_of_ne _ hne]
      exact h.spelled y hy

theorem importVar {scope : Scope} (h : s.WellNamed) (hscope : s.scope.importVar x = .ok scope) :
    WellNamed { s with scope := scope } := by
  obtain ⟨⟨_, _, _, hfree⟩, rfl⟩ := Scope.importVar_eq_ok hscope
  refine h.bind [x] [x] ?_ ?_ List.mem_cons_self (List.Subset.refl _)
    (List.pairwise_singleton _ _) rfl ?_ rfl rfl rfl (h.grounded.mono (List.subset_cons_self _ _))
  · exact fun y hy => List.mem_singleton.mp hy ▸ hfree
  · intro y hy z hz _
    rw [List.mem_singleton.mp hy, List.mem_singleton.mp hz]
  · exact (List.perm_append_singleton x s.cells).symm

theorem letVar {e : Source.Expr} {v : Value} {c : List String} {scope : Scope}
    {stmts : List Target.Stmt} (h : s.WellNamed) (hlower : lower s.scope e s.checked = .ok v c)
    (hscope : s.scope.letVar x v = .ok (scope, stmts)) :
    WellNamed { scope := scope, emitted := s.emitted ++ stmts, checked := c } := by
  obtain ⟨⟨_, _, _, hfree⟩, rfl, rfl⟩ := Scope.letVar_eq_ok hscope
  have hmade : v.Made (Target.Expr.ReadsOnly s.cells) :=
    made_lower (Target.Expr.hereditary_readsOnly _) (fun y w hw => (h.references y w hw).made) hlower
  refine h.bind _ _ hfree (fun y hy z hz => Value.eq_of_lower_eq hy hz) List.mem_cons_self
    (List.subset_cons_self _ _) (Value.pairwise_lower_parts x v) (Value.scalars_reference x v)
    ?_ rfl rfl rfl ?_
  · rw [cells, Target.targets_append, Target.targets_map_assign, ← List.append_assoc]
    exact List.Perm.refl _
  · exact h.grounded.append
      (.map_assign fun part hpart => hmade _ (Value.mem_scalars_of_mem_parts hpart))

theorem exportVar {scope : Scope} (h : s.WellNamed) (hscope : s.scope.exportVar x = .ok () scope) :
    WellNamed { s with scope := scope } := by
  obtain ⟨v, xs, ⟨_, hv, hxs⟩, rfl⟩ := Scope.exportVar_eq_ok hscope
  obtain ⟨ys, hys, hsub⟩ := (h.references x v hv).cells
  obtain rfl : ys = xs := Except.ok.inj (hys.symm.trans hxs)
  refine ⟨h.apart, h.grounded, fun y hy => ?_, h.references, h.spelled⟩
  exact (Scope.mem_foldl_insert.mp hy).elim (h.roots ·) (hsub ·)

/-- An export is refused because the name was exported before or is not bound.  As every bound name
refers to target variables, there is no other cause, and nothing has been recorded. -/
theorem refused_export {scope : Scope} {fault : Fault} (h : s.WellNamed)
    (hscope : s.scope.exportVar x = .error fault scope) :
    scope = s.scope ∧ (x ∈ s.scope.exports ∧ fault = .exportTwice x ∨
      s.scope.bindings.get? x = none ∧ fault = .undefinedVariable x) := by
  obtain hrefused | ⟨v, wanted, hv, hcells, _⟩ := Scope.exportVar_eq_error hscope
  · exact hrefused
  · obtain ⟨xs, hxs, _⟩ := (h.references x v hv).cells
    cases hxs.symm.trans hcells

/-- A refused statement changes no more than the memory. -/
theorem refused {s' : Session} {stmt : Source.Stmt} {fault : Fault} (h : s.WellNamed)
    (hstep : s.step stmt = .error fault s') : ∃ c, s' = { s with checked := c } := by
  obtain ⟨c, hs', _⟩ | ⟨x, scope, rfl, hexport, rfl⟩ := step_eq_error hstep
  · exact ⟨c, hs'⟩
  · obtain ⟨rfl, _⟩ := h.refused_export hexport
    exact ⟨s.checked, rfl⟩

/-- **Every statement keeps the names in order**, accepted or not. -/
theorem next (h : s.WellNamed) (stmt : Source.Stmt) : (s.next stmt).WellNamed := by
  cases hstep : s.step stmt with
  | error fault s' =>
    rw [next_of_error hstep]
    obtain ⟨c, rfl⟩ := h.refused hstep
    exact ⟨h.apart, h.grounded, h.roots, h.references, h.spelled⟩
  | ok u s' =>
    rw [next_of_ok hstep]
    cases stmt with
    | importVar x =>
      obtain ⟨scope, hscope, rfl⟩ := step_importVar hstep
      exact h.importVar hscope
    | define x params body =>
      obtain ⟨scope, hscope, rfl⟩ := step_define hstep
      obtain ⟨_, rfl⟩ := Scope.define_eq_ok hscope
      exact ⟨h.apart, h.grounded, h.roots, h.references, h.spelled⟩
    | letVar x e =>
      obtain ⟨v, c, scope, stmts, hlower, hscope, rfl⟩ := step_letVar hstep
      exact h.letVar hlower hscope
    | exportVar x =>
      obtain ⟨scope, hscope, rfl⟩ := step_exportVar hstep
      exact h.exportVar hscope
    | stray node => cases hstep

end WellNamed

/-- The names are in order whatever statements a session was given. -/
theorem wellNamed_after (p : Source.Program) : (after p).WellNamed :=
  after_induction WellNamed.initial (fun _ stmt h => h.next stmt) p

/-- **No names collide in a session**, whatever statements it was given and whichever it refused.
Imported and assigned variables differ by more than case; a statement reads imported variables and those
assigned before it; exported variables exist; bound names refer to variables that exist; and each name
in use is entered in its own spelling. -/
theorem names_apart_after (p : Source.Program) :
    ((after p).cells.Pairwise fun y z => Text.lower y ≠ Text.lower z) ∧
      (∀ before stmt rest, (after p).emitted = before ++ stmt :: rest →
        ∃ x e, stmt = .assign x e ∧
          e.ReadsOnly ((after p).scope.imports ++ Target.targets before)) ∧
      (after p).scope.roots ⊆ (after p).cells ∧
      (∀ y v, (after p).scope.bindings.get? y = some v → v.RefersTo (after p).cells) ∧
      ∀ y, y ∈ (after p).cells ∨ (after p).scope.bindings.has y = true →
        (after p).scope.spellings.get? (Text.lower y) = some y := by
  have h := wellNamed_after p
  refine ⟨h.apart, fun before stmt rest hemitted => ?_, h.roots, h.references, h.spelled⟩
  have hgrounded := h.grounded
  rw [hemitted] at hgrounded
  exact hgrounded.at_append

/-- `import A_1; let a = [1, 1]; let b = [A_1, 1]; export b`: the first binding is refused, as the
element `a_1` differs from the imported variable by case alone. -/
def collision : Source.Program :=
  [.importVar "A_1",
    .letVar "a" (.array [.literal .one, .literal .one]),
    .letVar "b" (.array [.ident "A_1", .literal .one]),
    .exportVar "b"]

/-- After the collision `b` is bound and exported, and nothing is left of `a`. -/
theorem names_apart_after_collision :
    ((after collision).cells = ["A_1", "b_0", "b_1"] ∧
        (after collision).scope.roots ⊆ (after collision).cells) ∧
      ((after collision).emitted = [] ++ .assign "b_0" (.ident "A_1") :: [.assign "b_1" (.literal .one)] ∧
        ∃ x e, Target.Stmt.assign "b_0" (.ident "A_1") = .assign x e ∧
          e.ReadsOnly ((after collision).scope.imports ++ Target.targets [])) ∧
      (∃ v, (after collision).scope.bindings.get? "b" = some v ∧ v.RefersTo (after collision).cells) ∧
      "b_1" ∈ (after collision).cells ∧
        (after collision).scope.spellings.get? (Text.lower "b_1") = some "b_1" := by
  obtain ⟨_, hreads, hroots, hreferences, hspelled⟩ := names_apart_after collision
  have hcells : (after collision).cells = ["A_1", "b_0", "b_1"] := by decide +kernel
  have hemitted : (after collision).emitted =
      [] ++ .assign "b_0" (.ident "A_1") :: [.assign "b_1" (.literal .one)] := by decide +kernel
  have hb : (after collision).scope.bindings.get? "b" =
      some (.vector [.ident "b_0", .ident "b_1"]) := by decide +kernel
  have hmem : "b_1" ∈ (after collision).cells := by decide +kernel
  exact ⟨⟨hcells, hroots⟩, ⟨hemitted, hreads _ _ _ hemitted⟩, ⟨_, hb, hreferences _ _ hb⟩, hmem,
    hspelled _ (Or.inl hmem)⟩

/-- **A refused statement leaves no trace** in scope and program, in any state that a session can
reach.  An export in particular is refused for its name and never for its value. -/
theorem refused_step_atomic {p : Source.Program} {stmt : Source.Stmt} {fault : Fault} {s' : Session}
    (hstep : (after p).step stmt = .error fault s') :
    s'.scope = (after p).scope ∧ s'.emitted = (after p).emitted ∧
      ∀ x, stmt = .exportVar x →
        (x ∈ (after p).scope.exports ∧ fault = .exportTwice x ∨
          (after p).scope.bindings.get? x = none ∧ fault = .undefinedVariable x) := by
  have h := wellNamed_after p
  obtain ⟨c, hs'⟩ := h.refused hstep
  refine ⟨by rw [hs'], by rw [hs'], ?_⟩
  rintro x rfl
  obtain ⟨scope, hscope, _⟩ := step_exportVar_error hstep
  exact (h.refused_export hscope).2

/-- After the collision, binding `a` to a vector is refused again and changes nothing. -/
theorem refused_step_atomic_collision :
    ∃ s', (after collision).step (.letVar "a" (.array [.literal .one, .literal .one])) =
        .error (.assignConflict "a_1" "A_1") s' ∧
      s'.scope = (after collision).scope ∧ s'.emitted = (after collision).emitted := by
  have hstep : (after collision).step (.letVar "a" (.array [.literal .one, .literal .one])) =
      .error (.assignConflict "a_1" "A_1") (after collision) := rfl
  exact ⟨_, hstep, (refused_step_atomic hstep).1, (refused_step_atomic hstep).2.1⟩

end Session

end Straightline
