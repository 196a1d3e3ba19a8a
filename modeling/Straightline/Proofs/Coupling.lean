import Straightline.Proofs.Denotation

/-!
# Two lowerings side by side

A lowering does three things: it looks variables up, it puts values together, and it checks functions
against its memory of those that were checked before.  So whatever relation between two memories the
checks keep, the lowering of an expression keeps as well, and from related memories it comes to the same
end (`coupled_lower`).

`Coupled R P E m m'` says that of two computations: started in memories that `R` relates, they yield the
same result, of which `P` holds, or the same fault, of which `E` holds, and `R` relates the memories
that they leave, which have only grown.  With equality for `R` it is a statement about a single
computation.
-/

namespace Straightline

/-! ## Values made of expressions of one kind -/

/-- A property of target expressions that operators keep. -/
structure Target.Expr.Hereditary (P : Target.Expr → Prop) : Prop where
  literal : ∀ n, P (.literal n)
  unary : ∀ op e, P e → P (.unary op e)
  binary : ∀ l op r, P l → P r → P (.binary l op r)

/-- The property that all expressions have. -/
theorem hereditary_true : Target.Expr.Hereditary fun _ => True :=
  ⟨fun _ => trivial, fun _ _ _ => trivial, fun _ _ _ _ _ => trivial⟩

namespace Value

/-- All the expressions that a value is made of have a property. -/
def Made (P : Target.Expr → Prop) (v : Value) : Prop := ∀ e ∈ v.scalars, P e

variable {P : Target.Expr → Prop} {v w u : Value} {op : InfixOp}

theorem Made.unary (hP : Target.Expr.Hereditary P) (h : v.Made P) (op : PrefixOp) :
    (v.unary op).Made P := by
  have hscalars : (v.unary op).scalars = v.scalars.map (.unary op) := by cases v <;> rfl
  intro e he
  rw [hscalars] at he
  obtain ⟨e', he', rfl⟩ := List.mem_map.mp he
  exact hP.unary op e' (h e' he')

theorem Made.binary (hP : Target.Expr.Hereditary P) (hv : v.Made P) (hw : w.Made P)
    (hu : v.binary op w = .ok u) : u.Made P := by
  intro e he
  cases v with
  | scalar a =>
    have ha : P a := hv a List.mem_cons_self
    cases w with
    | scalar b =>
      cases hu
      rw [List.mem_singleton.mp he]
      exact hP.binary a op b ha (hw b List.mem_cons_self)
    | vector bs =>
      cases hu
      obtain ⟨b, hb, rfl⟩ := List.mem_map.mp he
      exact hP.binary a op b ha (hw b hb)
  | vector as =>
    cases w with
    | scalar b =>
      cases hu
      obtain ⟨a, ha, rfl⟩ := List.mem_map.mp he
      exact hP.binary a op b (hv a ha) (hw b List.mem_cons_self)
    | vector bs =>
      rw [Value.binary] at hu
      split at hu
      · cases hu
        rw [scalars, ← List.map_uncurry_zip_eq_zipWith] at he
        obtain ⟨⟨a, b⟩, hab, rfl⟩ := List.mem_map.mp he
        obtain ⟨ha, hb⟩ := List.of_mem_zip hab
        exact hP.binary a op b (hv a ha) (hw b hb)
      · cases hu

theorem Made.joinAll (hP : Target.Expr.Hereditary P) {es : List Target.Expr} (hv : v.Made P)
    (hes : ∀ e ∈ es, P e) (hu : joinAll op v es = .ok u) : u.Made P := by
  induction es generalizing v with
  | nil =>
    cases hu
    exact hv
  | cons e es ih =>
    cases hb : v.binary op (scalar e) with
    | error mismatch => rw [Value.joinAll, hb] at hu; cases hu
    | ok w =>
      rw [Value.joinAll, hb] at hu
      have he : (scalar e).Made P := fun x hx => by
        rw [List.mem_singleton.mp hx]
        exact hes e List.mem_cons_self
      exact ih (hv.binary hP he hb) (fun x hx => hes x (List.mem_cons_of_mem _ hx)) hu

theorem Made.reduce (hP : Target.Expr.Hereditary P) {vs : List Value} {fold : FoldOp}
    (h : ∀ v ∈ vs, v.Made P) (hu : reduce fold.op (.scalar (.literal fold.start)) vs = .ok u) :
    u.Made P := by
  refine Made.joinAll hP (fun e he => ?_) (fun e he => ?_) hu
  · rw [List.mem_singleton.mp he]
    exact hP.literal _
  · obtain ⟨v, hv, he⟩ := List.mem_flatMap.mp he
    exact h v hv e he

end Value

/-! ## Computations -/

/-- What a lowering comes to: a result or a fault, and the memory in the end. -/
abbrev Lower.Outcome (α : Type) := EStateM.Result Fault (List String) α

namespace Lower

variable {α β : Type} {R : List String → List String → Prop} {E : Fault → Prop}

theorem bind_of_ok {m : Lower α} {next : α → Lower β} {a : α} {c d : List String}
    (h : m c = .ok a d) : (m >>= next) c = next a d := by
  change EStateM.bind m next c = next a d
  rw [EStateM.bind, h]

theorem bind_of_error {m : Lower α} {next : α → Lower β} {fault : Fault} {c d : List String}
    (h : m c = .error fault d) : (m >>= next) c = .error fault d := by
  change EStateM.bind m next c = .error fault d
  rw [EStateM.bind, h]

/-- **Two outcomes that agree**, of computations started in the memories `c` and `c'`. -/
inductive Outcome.Agree (R : List String → List String → Prop) (P : α → Prop) (E : Fault → Prop)
    (c c' : List String) : Outcome α → Outcome α → Prop
  | ok {a : α} {d d' : List String} (value : P a) (memories : R d d') (grown : c ⊆ d)
      (grown' : c' ⊆ d') : Agree R P E c c' (.ok a d) (.ok a d')
  | error {fault : Fault} {d d' : List String} (cause : E fault) (memories : R d d') (grown : c ⊆ d)
      (grown' : c' ⊆ d') : Agree R P E c c' (.error fault d) (.error fault d')

/-- Outcomes also agree if the computations started with less in memory, and up to a weaker relation. -/
theorem Outcome.Agree.weaken {R' : List String → List String → Prop} {P : α → Prop}
    {c c' d d' : List String} {o o' : Outcome α} (h : Agree R' P E d d' o o')
    (hR : ∀ e e', R' e e' → R e e') (hc : c ⊆ d) (hc' : c' ⊆ d') : Agree R P E c c' o o' := by
  cases h with
  | ok hP hR' hd hd' =>
    exact .ok hP (hR _ _ hR') (List.Subset.trans hc hd) (List.Subset.trans hc' hd')
  | error hE hR' hd hd' =>
    exact .error hE (hR _ _ hR') (List.Subset.trans hc hd) (List.Subset.trans hc' hd')

/-- **Two computations that come to the same end** from related memories. -/
def Coupled (R : List String → List String → Prop) (P : α → Prop) (E : Fault → Prop)
    (m m' : Lower α) : Prop :=
  ∀ c c', R c c' → Outcome.Agree R P E c c' (m c) (m' c')

namespace Coupled

variable {P : α → Prop} {Q : β → Prop}

theorem pure {a : α} (h : P a) : Coupled R P E (Pure.pure a) (Pure.pure a) :=
  fun _ _ hR => .ok h hR (List.Subset.refl _) (List.Subset.refl _)

theorem throw {fault : Fault} (h : E fault) :
    Coupled R P E (MonadExcept.throw fault) (MonadExcept.throw fault) :=
  fun _ _ hR => .error h hR (List.Subset.refl _) (List.Subset.refl _)

theorem bind {m m' : Lower α} {f f' : α → Lower β} (hm : Coupled R P E m m')
    (hf : ∀ a, P a → Coupled R Q E (f a) (f' a)) : Coupled R Q E (m >>= f) (m' >>= f') := by
  intro c c' hR
  have hagree := hm c c' hR
  change Outcome.Agree R Q E c c' (EStateM.bind m f c) (EStateM.bind m' f' c')
  unfold EStateM.bind
  generalize m c = o at hagree ⊢
  generalize m' c' = o' at hagree ⊢
  cases hagree with
  | error hE hR' hc hc' => exact .error hE hR' hc hc'
  | ok hP hR' hc hc' => exact (hf _ hP _ _ hR').weaken (fun _ _ h => h) hc hc'

theorem ofExcept {ε : Type} {fault : ε → Fault} {x : Except ε α} (hok : ∀ a, x = .ok a → P a)
    (herror : ∀ e, x = .error e → E (fault e)) :
    Coupled R P E (Lower.ofExcept fault x) (Lower.ofExcept fault x) := by
  cases x with
  | ok a => exact pure (hok a rfl)
  | error e => exact throw (herror e rfl)

/-- A relation of memories may be narrowed to one that growing memories keep. -/
theorem narrow {R' : List String → List String → Prop} {m m' : Lower α} (h : Coupled R P E m m')
    (hpre : ∀ c c', R' c c' → R c c')
    (hpost : ∀ c c' d d', R' c c' → R d d' → c ⊆ d → c' ⊆ d' → R' d d') : Coupled R' P E m m' := by
  intro c c' hR
  have hagree := h c c' (hpre c c' hR)
  generalize m c = o at hagree ⊢
  generalize m' c' = o' at hagree ⊢
  cases hagree with
  | ok hP hR' hc hc' => exact .ok hP (hpost _ _ _ _ hR hR' hc hc') hc hc'
  | error hE hR' hc hc' => exact .error hE (hpost _ _ _ _ hR hR' hc hc') hc hc'

end Coupled

/-! ## Expressions -/

/-- **What stands around an expression keeps two lowerings of it together**: the variables, and the calls
of the functions in `F`.  Literals and operators keep to `P`, and `E` takes in every fault but one. -/
structure CoupledAround (R : List String → List String → Prop) (P : Target.Expr → Prop)
    (E : Fault → Prop) (F : String → Prop) (var var' : String → Lower Value)
    (call call' : String → List (Lower Value) → Lower Value) : Prop where
  hereditary : Target.Expr.Hereditary P
  faults : ∀ fault, (∀ f, fault ≠ .endlessCall f) → E fault
  var : ∀ x, Coupled R (Value.Made P) E (var x) (var' x)
  call : ∀ f args args', F f → List.Forall₂ (Coupled R (Value.Made P) E) args args' →
    Coupled R (Value.Made P) E (call f args) (call' f args')

section
variable {P : Target.Expr → Prop} {F : String → Prop} {var var' : String → Lower Value}
  {call call' : String → List (Lower Value) → Lower Value}

theorem coupled_reduce (around : CoupledAround R P E F var var' call call') {op : FoldOp}
    {m m' : Lower (List Value)} (hm : Coupled R (fun vs => ∀ v ∈ vs, Value.Made P v) E m m') :
    Coupled R (Value.Made P) E (m >>= Lower.reduce op) (m' >>= Lower.reduce op) :=
  hm.bind fun _ hvs => .ofExcept (fun _ hu => Value.Made.reduce around.hereditary hvs hu)
    fun _ _ => around.faults _ nofun

mutual

/-- Lowering an expression keeps two computations together, if what stands around it does. -/
theorem coupled_expr (around : CoupledAround R P E F var var' call call') :
    ∀ e : Source.Expr, (∀ f ∈ Definition.calls e, F f) →
    Coupled R (Value.Made P) E (expr var call e) (expr var' call' e)
  | .literal n, _ => by
      rw [expr, expr]
      exact .pure fun e he => by rw [List.mem_singleton.mp he]; exact around.hereditary.literal n
  | .ident x, _ => by
      rw [expr, expr]
      exact around.var x
  | .unary op e, h => by
      rw [expr, expr]
      exact (coupled_expr around e h).bind fun v hv => .pure (hv.unary around.hereditary op)
  | .binary l op r, h => by
      rw [expr, expr]
      refine (coupled_expr around l fun f hf => h f (List.mem_append_left _ hf)).bind fun a ha => ?_
      refine (coupled_expr around r fun f hf => h f (List.mem_append_right _ hf)).bind fun b hb => ?_
      exact .ofExcept (fun _ hu => ha.binary around.hereditary hb hu) fun _ _ => around.faults _ nofun
  | .call f args, h => by
      have hargs := fun g hg => h g (List.mem_cons_of_mem _ hg)
      rw [expr, expr]
      cases FoldOp.ofName? f with
      | some op => exact coupled_reduce around (coupled_exprs around args hargs)
      | none => exact around.call f _ _ (h f List.mem_cons_self) (coupled_delayed around args hargs)
  | .fold op args, h => by
      rw [expr, expr]
      cases FoldOp.ofOp? op with
      | some fold => exact coupled_reduce around (coupled_exprs around args h)
      | none => exact .throw (around.faults _ nofun)
  | .array items, h => by
      rw [expr, expr]
      exact (coupled_elements around items h).bind fun xs hxs => .pure hxs
  | .stray node, _ => by
      rw [expr, expr]
      exact .throw (around.faults _ nofun)

theorem coupled_exprs (around : CoupledAround R P E F var var' call call') :
    ∀ es : List Source.Expr, (∀ f ∈ Definition.callsAll es, F f) →
    Coupled R (fun vs => ∀ v ∈ vs, Value.Made P v) E (exprs var call es) (exprs var' call' es)
  | [], _ => by
      rw [exprs, exprs]
      exact .pure nofun
  | e :: es, h => by
      rw [exprs, exprs]
      refine (coupled_expr around e fun f hf => h f (List.mem_append_left _ hf)).bind fun v hv => ?_
      refine (coupled_exprs around es fun f hf => h f (List.mem_append_right _ hf)).bind fun vs hvs => ?_
      exact .pure (List.forall_mem_cons.mpr ⟨hv, hvs⟩)

theorem coupled_elements (around : CoupledAround R P E F var var' call call') :
    ∀ es : List Source.Expr, (∀ f ∈ Definition.callsAll es, F f) →
    Coupled R (fun xs => ∀ x ∈ xs, P x) E (elements var call es) (elements var' call' es)
  | [], _ => by
      rw [elements, elements]
      exact .pure nofun
  | e :: es, h => by
      rw [elements, elements]
      refine (coupled_expr around e fun f hf => h f (List.mem_append_left _ hf)).bind fun v hv => ?_
      have helement : Coupled R P E (element v) (element v) := by
        cases v with
        | scalar x => exact .pure (hv x List.mem_cons_self)
        | vector xs => exact .throw (around.faults _ nofun)
      refine helement.bind fun x hx => ?_
      refine (coupled_elements around es fun f hf => h f (List.mem_append_right _ hf)).bind fun xs hxs => ?_
      exact .pure (List.forall_mem_cons.mpr ⟨hx, hxs⟩)

theorem coupled_delayed (around : CoupledAround R P E F var var' call call') :
    ∀ es : List Source.Expr, (∀ f ∈ Definition.callsAll es, F f) →
    List.Forall₂ (Coupled R (Value.Made P) E) (delayed var call es) (delayed var' call' es)
  | [], _ => by
      rw [delayed, delayed]
      exact .nil
  | e :: es, h => by
      rw [delayed, delayed]
      exact .cons (coupled_expr around e fun f hf => h f (List.mem_append_left _ hf))
        (coupled_delayed around es fun f hf => h f (List.mem_append_right _ hf))

end

end

/-! ## Calls -/

/-- Looking a name up in two tables with related values. -/
theorem get?_zip_cases {R : α → β → Prop} {as : List α} {bs : List β} (h : List.Forall₂ R as bs)
    (names : List String) (x : String) :
    (Table.get? (names.zip as) x = none ∧ Table.get? (names.zip bs) x = none) ∨
      ∃ a b, Table.get? (names.zip as) x = some a ∧ Table.get? (names.zip bs) x = some b ∧ R a b := by
  cases hb : Table.get? (names.zip bs) x with
  | some b =>
    obtain ⟨a, ha, hR⟩ := get?_zip_of_forall₂ h names hb
    exact Or.inr ⟨a, b, ha, rfl, hR⟩
  | none =>
    cases ha : Table.get? (names.zip as) x with
    | none => exact Or.inl ⟨rfl, rfl⟩
    | some a =>
      obtain ⟨b, hb', _⟩ := get?_zip_of_forall₂ h.flip names ha
      rw [hb] at hb'
      cases hb'

section
variable {s : Scope} {f : String} {fn : Definition} {depth : Nat} {args args' : List (Lower Value)}
  {c d : List String}

theorem checkRecursion_apply (s : Scope) (fn : Definition) (c : List String) :
    checkRecursion s fn c =
      if fn.name ∈ c then .ok () c
      else if fn.name ∈ s.callGraph.search fn.callees then .error (.recursiveCall fn.name) c
      else .ok () (fn.name :: c) := by
  refine (bind_of_ok rfl).trans ?_
  split
  · rfl
  · split <;> rfl

theorem call_of_undefined (h : s.functions.get? f = none) :
    call s (depth + 1) f args c = .error (.undefinedFunction f) c := by
  have hdef : s.definitionOf f = .error (.undefinedFunction f) := by rw [Scope.definitionOf, h]
  rw [call, hdef]
  rfl

theorem call_of_refused {fault : Fault} (h : s.functions.get? f = some fn)
    (hcheck : checkRecursion s fn c = .error fault d) :
    call s (depth + 1) f args c = .error fault d := by
  have hdef : s.definitionOf f = .ok fn := by rw [Scope.definitionOf, h]
  rw [call, hdef]
  exact (bind_of_ok rfl).trans (bind_of_error hcheck)

theorem call_of_checked (h : s.functions.get? f = some fn)
    (hcheck : checkRecursion s fn c = .ok () d) :
    call s (depth + 1) f args c =
      if args.length = fn.params.length then
        expr (local? s (fn.params.zip args)) (call s depth) fn.body d
      else .error (.wrongNumberOfArgs fn.name fn.params.length args.length) d := by
  have hdef : s.definitionOf f = .ok fn := by rw [Scope.definitionOf, h]
  rw [call, hdef]
  refine (bind_of_ok rfl).trans ((bind_of_ok hcheck).trans ?_)
  split <;> rfl

variable {P : Target.Expr → Prop} (hbindings : ∀ x v, s.bindings.get? x = some v → v.Made P)
  (hE : ∀ fault, (∀ f, fault ≠ .endlessCall f) → E fault)

include hbindings hE

theorem coupled_valueOf (x : String) :
    Coupled R (Value.Made P) E (ofExcept id (s.valueOf x)) (ofExcept id (s.valueOf x)) := by
  unfold Scope.valueOf
  cases h : s.bindings.get? x with
  | some v => exact .pure (hbindings x v h)
  | none => exact .throw (hE _ nofun)

/-- A variable inside a function keeps two computations together, if the arguments do. -/
theorem coupled_local (hargs : List.Forall₂ (Coupled R (Value.Made P) E) args args')
    (params : List String) (x : String) :
    Coupled R (Value.Made P) E (local? s (params.zip args) x) (local? s (params.zip args') x) := by
  unfold local?
  obtain ⟨h, h'⟩ | ⟨arg, arg', h, h', hcoupled⟩ := get?_zip_cases hargs params x <;> rw [h, h']
  · exact coupled_valueOf hbindings hE x
  · exact hcoupled

end

section
variable {s : Scope} {P : Target.Expr → Prop} (hP : Target.Expr.Hereditary P)
  (hbindings : ∀ x v, s.bindings.get? x = some v → v.Made P)
  (hcheck : ∀ f fn, s.functions.get? f = some fn →
    Coupled R (fun _ => True) (fun _ => True) (checkRecursion s fn) (checkRecursion s fn))

include hP hbindings hcheck

/-- Inlining a call keeps two computations together, if the checks and the arguments do. -/
theorem coupled_call (depth : Nat) :
    ∀ f args args', List.Forall₂ (Coupled R (Value.Made P) fun _ => True) args args' →
      Coupled R (Value.Made P) (fun _ => True) (call s depth f args) (call s depth f args') := by
  induction depth with
  | zero => exact fun f args args' _ => .throw trivial
  | succ depth ih =>
    intro f args args' hargs
    rw [call, call]
    refine .bind (P := fun fn => s.functions.get? f = some fn) ?_ fun fn hfn => ?_
    · refine .ofExcept (fun fn h => ?_) fun _ _ => trivial
      unfold Scope.definitionOf at h
      split at h
      · cases h
        assumption
      · cases h
    refine (hcheck f fn hfn).bind fun _ _ => ?_
    rw [hargs.length_eq]
    split
    · exact coupled_expr (F := fun _ => True) ⟨hP, fun _ _ => trivial,
        coupled_local hbindings (fun _ _ => trivial) hargs fn.params,
        fun g as as' _ => ih g as as'⟩ fn.body fun _ _ => trivial
    · exact .throw trivial

end

end Lower

/-- **Lowering an expression comes to the same end from any two memories** that are related in a way
that the checks keep. -/
theorem coupled_lower {R : List String → List String → Prop} {s : Scope} {P : Target.Expr → Prop}
    (hP : Target.Expr.Hereditary P) (hbindings : ∀ x v, s.bindings.get? x = some v → v.Made P)
    (hcheck : ∀ f fn, s.functions.get? f = some fn → Lower.Coupled R (fun _ => True) (fun _ => True)
      (Lower.checkRecursion s fn) (Lower.checkRecursion s fn)) (e : Source.Expr) :
    Lower.Coupled R (Value.Made P) (fun _ => True) (lower s e) (lower s e) :=
  Lower.coupled_expr (F := fun _ => True) ⟨hP, fun _ _ => trivial,
    Lower.coupled_valueOf hbindings fun _ _ => trivial,
    fun f as as' _ => Lower.coupled_call hP hbindings hcheck _ f as as'⟩ e fun _ _ => trivial

/-- **A lowered value is made of what the bound values are made of**, and of literals and operators. -/
theorem made_lower {s : Scope} {P : Target.Expr → Prop} (hP : Target.Expr.Hereditary P)
    (hbindings : ∀ x v, s.bindings.get? x = some v → v.Made P) {e : Source.Expr} {c d : List String}
    {v : Value} (h : lower s e c = .ok v d) : v.Made P := by
  have hcheck : ∀ f fn, s.functions.get? f = some fn →
      Lower.Coupled Eq (fun _ => True) (fun _ => True) (Lower.checkRecursion s fn)
        (Lower.checkRecursion s fn) := by
    rintro f fn _ c _ rfl
    rw [Lower.checkRecursion_apply]
    split
    · exact .ok trivial rfl (List.Subset.refl c) (List.Subset.refl c)
    · split
      · exact .error trivial rfl (List.Subset.refl c) (List.Subset.refl c)
      · exact .ok trivial rfl (List.subset_cons_self _ c) (List.subset_cons_self _ c)
  have hagree := coupled_lower hP hbindings hcheck e c c rfl
  rw [h] at hagree
  cases hagree with
  | ok hv => exact hv

end Straightline
