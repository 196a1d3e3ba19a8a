import Mathlib.Data.List.Induction
import Straightline.Proofs.Coupling
import Straightline.Proofs.Histories
import Straightline.Proofs.Reachability

/-!
# When recursion is noticed

A function is *recursive* if it comes back to itself along the functions that are called in the bodies
of functions (`Definition.Recursive`).  A body may call functions that are defined later, so a function
can become recursive after it has been defined.

The check made before a function is inlined is exact for the functions that it has not passed before
(`checkRecursion_cases`).  A function that has passed is not checked again, also when a later definition
has made it recursive: such a function is inlined, and a binding that uses it may be accepted where a
session with the same names in use, but with nothing checked so far, refuses it
(`unnoticed_recursion`).  Where no function in memory has become recursive the memory makes no
difference, and this is so if all functions are defined before the first variable is bound
(`checkRecursion_refuses_iff`).

Even so, the functions in memory never form a cycle (`Guarded.cycleFree`): the last function defined on
a cycle had not been checked before, and will not pass.
-/

namespace Straightline

open Relation (TransGen ReflTransGen)

theorem Table.get?_map {α β : Type} (t : Table α) (g : α → β) (name : String) :
    Table.get? (t.map fun e => (e.1, g e.2)) name = (t.get? name).map g := by
  induction t with
  | nil => rfl
  | cons e t ih =>
    rw [List.map_cons, Table.get?_cons, Table.get?_cons, ih]
    split <;> rfl

namespace Definition

variable {functions : Table Definition} {f : Definition} {a b x : String} {c : List String}

/-! ## The call graph -/

/-- **A function calls another** in its body. -/
def Calls (functions : Table Definition) (a b : String) : Prop :=
  ∃ f, functions.get? a = some f ∧ b ∈ f.callees

/-- **A function is recursive** if it comes back to itself along calls. -/
def Recursive (functions : Table Definition) (a : String) : Prop := TransGen (Calls functions) a a

theorem reaches_callGraph {s : Scope} :
    s.callGraph.Reaches a b ↔ ReflTransGen (Calls s.functions) a b := by
  have hstep : (fun x y => y ∈ s.callGraph.successors x) = Calls s.functions := by
    funext x y
    unfold Graph.successors Scope.callGraph Calls
    rw [Table.get?_map]
    cases s.functions.get? x with
    | none => simp
    | some f => simp
  rw [Graph.Reaches, hstep]

theorem mem_search_callees {s : Scope} (hf : s.functions.get? f.name = some f) :
    f.name ∈ s.callGraph.search f.callees ↔ Recursive s.functions f.name := by
  rw [Graph.mem_search, Recursive, TransGen.head'_iff]
  refine exists_congr fun r => and_congr ?_ reaches_callGraph
  constructor
  · exact fun hr => ⟨f, hf, hr⟩
  · rintro ⟨g, hg, hr⟩
    rw [hf] at hg
    exact Option.some.inj hg ▸ hr

/-- **What a check comes to**: a function in memory passes, and any other passes if it is not recursive,
and is then kept in memory. -/
theorem checkRecursion_cases {s : Scope} (hf : s.functions.get? f.name = some f) (c : List String) :
    (f.name ∈ c ∧ Lower.checkRecursion s f c = .ok () c) ∨
      (f.name ∉ c ∧ Recursive s.functions f.name ∧
        Lower.checkRecursion s f c = .error (.recursiveCall f.name) c) ∨
      f.name ∉ c ∧ ¬ Recursive s.functions f.name ∧
        Lower.checkRecursion s f c = .ok () (f.name :: c) := by
  rw [Lower.checkRecursion_apply]
  by_cases hc : f.name ∈ c
  · exact Or.inl ⟨hc, if_pos hc⟩
  rw [if_neg hc]
  by_cases hr : f.name ∈ s.callGraph.search f.callees
  · exact Or.inr (Or.inl ⟨hc, (mem_search_callees hf).mp hr, if_pos hr⟩)
  · exact Or.inr (Or.inr ⟨hc, mt (mem_search_callees hf).mpr hr, if_neg hr⟩)

/-- With no recursive function in memory, a check comes to what the calls say, whatever is in memory. -/
theorem checkRecursion_of_not_recursive {s : Scope} (hf : s.functions.get? f.name = some f)
    (hc : ∀ g ∈ c, ¬ Recursive s.functions g) :
    (Recursive s.functions f.name ∧
        Lower.checkRecursion s f c = .error (.recursiveCall f.name) c) ∨
      ¬ Recursive s.functions f.name ∧ ∃ d, Lower.checkRecursion s f c = .ok () d ∧ c ⊆ d ∧
        ∀ g ∈ d, ¬ Recursive s.functions g := by
  rcases checkRecursion_cases hf c with ⟨hmem, h⟩ | ⟨_, hr, h⟩ | ⟨_, hr, h⟩
  · exact Or.inr ⟨hc f.name hmem, c, h, List.Subset.refl c, hc⟩
  · exact Or.inl ⟨hr, h⟩
  · exact Or.inr ⟨hr, _, h, List.subset_cons_self _ c, List.forall_mem_cons.mpr ⟨hr, hc⟩⟩

/-! ## Memories without a cycle -/

/-- **No functions of a list call each other in a cycle.** -/
def CycleFree (functions : Table Definition) (c : List String) : Prop :=
  ∀ a, ¬ TransGen (fun x y => x ∈ c ∧ Calls functions x y) a a

theorem cycleFree_of_not_recursive (h : ∀ g ∈ c, ¬ Recursive functions g) : CycleFree functions c := by
  intro a ha
  obtain ⟨b, hab, _⟩ := TransGen.head'_iff.mp ha
  exact h a hab.1 (TransGen.mono (fun _ _ hxy => hxy.2) a a ha)

/-- A function that is not recursive closes no cycle. -/
theorem CycleFree.cons (h : CycleFree functions c) (hx : ¬ Recursive functions x) :
    CycleFree functions (x :: c) := by
  -- a path through `x :: c` avoids `x`, or it can be cut at the last `x` on it
  have hsplit : ∀ a b, TransGen (fun y z => y ∈ x :: c ∧ Calls functions y z) a b →
      TransGen (fun y z => y ∈ c ∧ Calls functions y z) a b ∨
        ReflTransGen (Calls functions) a x ∧ TransGen (Calls functions) x b := by
    intro a b hab
    induction hab with
    | single hstep =>
      rcases List.mem_cons.mp hstep.1 with rfl | hc
      · exact Or.inr ⟨.refl, .single hstep.2⟩
      · exact Or.inl (.single ⟨hc, hstep.2⟩)
    | tail hpath hstep ih =>
      rcases List.mem_cons.mp hstep.1 with rfl | hc
      · have hpath' := TransGen.mono (fun _ _ hyz => hyz.2) _ _ hpath
        exact Or.inr ⟨hpath'.to_reflTransGen, .single hstep.2⟩
      · rcases ih with ih | ⟨hax, hxb⟩
        · exact Or.inl (ih.tail ⟨hc, hstep.2⟩)
        · exact Or.inr ⟨hax, hxb.tail hstep.2⟩
  intro a ha
  rcases hsplit a a ha with ha | ⟨hax, hxa⟩
  · exact h a ha
  · exact hx (hxa.trans_left hax)

/-- A function that passes is in memory afterwards, which is still free of cycles. -/
theorem checkRecursion_of_cycleFree {s : Scope} (hf : s.functions.get? f.name = some f)
    (hc : CycleFree s.functions c) :
    Lower.checkRecursion s f c = .error (.recursiveCall f.name) c ∨
      ∃ d, Lower.checkRecursion s f c = .ok () d ∧ c ⊆ d ∧ f.name ∈ d ∧
        CycleFree s.functions d := by
  rcases checkRecursion_cases hf c with ⟨hmem, h⟩ | ⟨_, _, h⟩ | ⟨_, hr, h⟩
  · exact Or.inr ⟨c, h, List.Subset.refl c, hmem, hc⟩
  · exact Or.inl h
  · exact Or.inr ⟨_, h, List.subset_cons_self _ c, List.mem_cons_self, hc.cons hr⟩

/-- Defining a function that is not in memory leaves the memory without a cycle. -/
theorem CycleFree.define (h : CycleFree functions c) (hx : x ∉ c) (f : Definition) :
    CycleFree (functions.set x f) c := by
  intro a ha
  refine h a (TransGen.mono (fun y z ⟨hy, g, hg, hz⟩ => ⟨hy, g, ?_, hz⟩) a a ha)
  rwa [Table.get?_set_of_ne _ _ (ne_of_mem_of_not_mem hy hx)] at hg

end Definition

open Definition (Recursive CycleFree checkRecursion_cases)

/-! ## Lowering and the memory -/

section
variable {s : Scope} (hkeyed : ∀ k f, s.functions.get? k = some f → f.name = k)

include hkeyed

/-- **What a lowering puts into memory**: functions that are defined and are not recursive. -/
theorem Lower.Leaves.keeps {I : List String → Prop}
    (hI : ∀ f c, s.functions.has f = true → ¬ Recursive s.functions f → I c → I (f :: c))
    {e : Source.Expr} {c d : List String} (h : (lower s e).Leaves c d) (hc : I c) : I d := by
  have hcheck : ∀ k f, s.functions.get? k = some f →
      Coupled (fun c c' => c = c' ∧ I c) (fun _ => True) (fun _ => True)
        (checkRecursion s f) (checkRecursion s f) := by
    rintro k f hf c _ ⟨rfl, hc⟩
    obtain rfl := hkeyed k f hf
    rcases checkRecursion_cases hf c with ⟨_, h⟩ | ⟨_, _, h⟩ | ⟨_, hr, h⟩ <;> rw [h]
    · exact .ok trivial ⟨rfl, hc⟩ (List.Subset.refl c) (List.Subset.refl c)
    · exact .error trivial ⟨rfl, hc⟩ (List.Subset.refl c) (List.Subset.refl c)
    · have hdefined : s.functions.has f.name = true := by rw [Table.has, hf]; rfl
      exact .ok trivial ⟨rfl, hI f.name c hdefined hr hc⟩ (List.subset_cons_self _ c)
        (List.subset_cons_self _ c)
  have hagree := coupled_lower hereditary_true (fun _ _ _ _ _ => trivial) hcheck e c c ⟨rfl, hc⟩
  rcases h with ⟨v, h⟩ | ⟨fault, h⟩ <;> rw [h] at hagree
  · cases hagree with
    | ok _ hd _ _ => exact hd.2
  · cases hagree with
    | error _ hd _ _ => exact hd.2

end

/-! ## Sessions -/

namespace Session

variable {s t : Session} {x : String}

/-- **The memory of a session is in order**: functions are kept under their names, those in memory are
defined, and they do not call each other in a cycle. -/
structure Guarded (s : Session) : Prop where
  keyed : ∀ k f, s.scope.functions.get? k = some f → f.name = k
  known : ∀ f ∈ s.checked, s.scope.functions.has f = true
  cycleFree : CycleFree s.scope.functions s.checked

theorem Guarded.initial : Guarded {} where
  keyed := nofun
  known := nofun
  cycleFree := Definition.cycleFree_of_not_recursive nofun

theorem Guarded.next (h : s.Guarded) (stmt : Source.Stmt) : (s.next stmt).Guarded := by
  obtain ⟨x, params, body, _, hnew, hfun, hchecked⟩ | ⟨hfun, hchecked⟩ := s.next_memory stmt
  · have hx : x ∉ s.checked := fun hx => by
      rw [h.known x hx] at hnew
      cases hnew
    have hget : ∀ k, k ≠ x → (s.next stmt).scope.functions.get? k = s.scope.functions.get? k := by
      intro k hk
      rw [hfun, Table.get?_set_of_ne _ _ hk]
    refine ⟨?_, ?_, ?_⟩
    · intro k f hf
      by_cases hk : k = x
      · subst hk
        rw [hfun, Table.get?_set_self] at hf
        cases hf
        rfl
      · exact h.keyed k f (hget k hk ▸ hf)
    · intro f hf
      rw [hchecked] at hf
      rw [Table.has, hget f (ne_of_mem_of_not_mem hf hx)]
      exact h.known f hf
    · rw [hfun, hchecked]
      exact h.cycleFree.define hx _
  · have hmemory : (∀ f ∈ (s.next stmt).checked, s.scope.functions.has f = true) ∧
        CycleFree s.scope.functions (s.next stmt).checked := by
      rcases hchecked with hsame | ⟨x, e, _, hleaves⟩
      · rw [hsame]
        exact ⟨h.known, h.cycleFree⟩
      · refine hleaves.keeps h.keyed (I := fun c =>
          (∀ f ∈ c, s.scope.functions.has f = true) ∧ CycleFree s.scope.functions c)
          ?_ ⟨h.known, h.cycleFree⟩
        rintro f c hf hr ⟨hknown, hfree⟩
        exact ⟨List.forall_mem_cons.mpr ⟨hf, hknown⟩, hfree.cons hr⟩
    exact ⟨hfun ▸ h.keyed, hfun ▸ hmemory.1, hfun ▸ hmemory.2⟩

theorem guarded_after (p : Source.Program) : (after p).Guarded :=
  after_induction .initial (fun _ stmt h => h.next stmt) p

/-- **No function in memory has become recursive.** -/
def Settled (s : Session) : Prop := ∀ f ∈ s.checked, ¬ Recursive s.scope.functions f

/-- Between sessions with the same names in use, and with nothing in memory that has become recursive,
the memory makes no difference to a binding. -/
theorem refusal?_letVar_congr (hkeyed : ∀ k f, s.scope.functions.get? k = some f → f.name = k)
    (hs : s.Settled) (ht : t.Settled) (hscope : t.scope = s.scope) (x : String) (e : Source.Expr) :
    t.refusal? (.letVar x e) = s.refusal? (.letVar x e) := by
  let R : List String → List String → Prop := fun c c' =>
    (∀ f ∈ c, ¬ Recursive s.scope.functions f) ∧ ∀ f ∈ c', ¬ Recursive s.scope.functions f
  have hcheck : ∀ k f, s.scope.functions.get? k = some f →
      Lower.Coupled R (fun _ => True) (fun _ => True)
        (Lower.checkRecursion s.scope f) (Lower.checkRecursion s.scope f) := by
    rintro k f hf c c' ⟨hc, hc'⟩
    obtain rfl := hkeyed k f hf
    rcases Definition.checkRecursion_of_not_recursive hf hc with ⟨hr, h⟩ | ⟨hr, d, h, hd, hd'⟩
    · rcases Definition.checkRecursion_of_not_recursive hf hc' with ⟨_, h'⟩ | ⟨hr', _⟩
      · rw [h, h']
        exact .error trivial ⟨hc, hc'⟩ (List.Subset.refl c) (List.Subset.refl c')
      · exact absurd hr hr'
    · rcases Definition.checkRecursion_of_not_recursive hf hc' with ⟨hr', _⟩ | ⟨_, e, h', he, he'⟩
      · exact absurd hr' hr
      · rw [h, h']
        exact .ok trivial ⟨hd', he'⟩ hd he
  have hagree := coupled_lower hereditary_true (fun _ _ _ _ _ => trivial) hcheck e t.checked s.checked
    ⟨fun f hf => hscope ▸ ht f hf, hs⟩
  rw [refusal?_letVar, refusal?_letVar, hscope]
  generalize lower s.scope e t.checked = o at hagree ⊢
  generalize lower s.scope e s.checked = o' at hagree ⊢
  cases hagree with
  | error => rfl
  | ok => rfl

/-- A session that has not bound any variable has nothing in memory. -/
theorem checked_after_eq_nil {p : Source.Program} (h : ∀ x e, .letVar x e ∉ p) :
    (after p).checked = [] := by
  induction p using List.reverseRecOn with
  | nil => rfl
  | append_singleton p stmt ih =>
    have hnil := ih fun x e hmem => h x e (List.mem_append_left _ hmem)
    rw [after_concat]
    obtain ⟨_, _, _, _, _, _, hchecked⟩ | ⟨_, hchecked | ⟨x, e, rfl, _⟩⟩ := (after p).next_memory stmt
    · rw [hchecked, hnil]
    · rw [hchecked, hnil]
    · exact absurd (List.mem_append_right p List.mem_cons_self) (h x e)

/-- If all functions are defined before the first variable is bound, none of those in memory has become
recursive. -/
theorem settled_after {p : Source.Program}
    (h : ∀ q f params body r, p = q ++ .define f params body :: r → ∀ x e, .letVar x e ∉ q) :
    (after p).Settled := by
  induction p using List.reverseRecOn with
  | nil => exact nofun
  | append_singleton p stmt ih =>
    have hsettled : (after p).Settled := ih fun q f params body r hp =>
      h q f params body (r ++ [stmt]) (by rw [hp, List.append_assoc]; rfl)
    have hkeyed := (guarded_after p).keyed
    rw [after_concat, Settled]
    obtain ⟨f, params, body, rfl, _, _, hchecked⟩ | ⟨hfun, hchecked⟩ := (after p).next_memory stmt
    · rw [hchecked, checked_after_eq_nil (h p f params body [] rfl)]
      exact nofun
    · rw [hfun]
      rcases hchecked with hsame | ⟨x, e, _, hleaves⟩
      · rw [hsame]
        exact hsettled
      · exact hleaves.keeps hkeyed
          (I := fun c => ∀ f ∈ c, ¬ Recursive (after p).scope.functions f)
          (fun f c _ hr hc => List.forall_mem_cons.mpr ⟨hr, hc⟩) hsettled

/-- **When recursion is noticed.**  After any statements, accepted or not, a function is refused if and
only if it is recursive and has not passed the check before.  If no function in memory has become
recursive, then whether and why a binding is refused depends on the names in use alone, not on what was
tried before.  And none has, if all functions were defined before the first variable was bound. -/
theorem checkRecursion_refuses_iff (p : Source.Program) :
    (∀ f, (after p).scope.functions.get? f.name = some f →
      ((∃ c, Lower.checkRecursion (after p).scope f (after p).checked =
          .error (.recursiveCall f.name) c) ↔
        Recursive (after p).scope.functions f.name ∧ f.name ∉ (after p).checked)) ∧
    ((after p).Settled → ∀ t : Session, t.scope = (after p).scope → t.Settled →
      ∀ x e, t.refusal? (.letVar x e) = (after p).refusal? (.letVar x e)) ∧
    ((∀ q f params body r, p = q ++ .define f params body :: r → ∀ x e, .letVar x e ∉ q) →
      (after p).Settled) := by
  refine ⟨fun f hf => ?_, fun hs t hscope ht => ?_, settled_after⟩
  · rcases checkRecursion_cases hf (after p).checked with ⟨hmem, h⟩ | ⟨hmem, hr, h⟩ | ⟨_, hr, h⟩
    · exact ⟨fun ⟨c, hc⟩ => absurd (hc.symm.trans h) nofun, fun hr => absurd hmem hr.2⟩
    · exact ⟨fun _ => ⟨hr, hmem⟩, fun _ => ⟨_, h⟩⟩
    · exact ⟨fun ⟨c, hc⟩ => absurd (hc.symm.trans h) nofun, fun hr' => absurd hr'.1 hr⟩
  · exact refusal?_letVar_congr (guarded_after p).keyed hs ht hscope

/-- `define f(x) = g(x); define g(x) = f(x)`: both functions are refused. -/
theorem noticed_recursion :
    ∃ c, Lower.checkRecursion
        (after [.define "f" ["x"] (.call "g" [.ident "x"]),
          .define "g" ["x"] (.call "f" [.ident "x"])]).scope
        ⟨"f", ["x"], .call "g" [.ident "x"]⟩ [] = .error (.recursiveCall "f") c := by
  let p : Source.Program :=
    [.define "f" ["x"] (.call "g" [.ident "x"]), .define "g" ["x"] (.call "f" [.ident "x"])]
  have hf : (after p).scope.functions.get? "f" = some ⟨"f", ["x"], .call "g" [.ident "x"]⟩ := by
    decide +kernel
  have hg : (after p).scope.functions.get? "g" = some ⟨"g", ["x"], .call "f" [.ident "x"]⟩ := by
    decide +kernel
  have hrec : Recursive (after p).scope.functions "f" :=
    .tail (.single ⟨_, hf, by decide +kernel⟩) ⟨_, hg, by decide +kernel⟩
  exact ((checkRecursion_refuses_iff p).1 _ hf).mpr ⟨hrec, by decide +kernel⟩

/-- The function `f(x) = k(g(x))`. -/
def detour : Definition := ⟨"f", ["x"], .call "k" [.call "g" [.ident "x"]]⟩

/-- `define k(x) = 1; define f(x) = k(g(x)); let a = …; define g(x) = f(x)`: the last definition makes
`f` recursive. -/
def lateCycle (e : Source.Expr) : Source.Program :=
  [.define "k" ["x"] (.literal .one),
    .define detour.name detour.params detour.body,
    .letVar "a" e,
    .define "g" ["x"] (.call "f" [.ident "x"])]

/-- **Recursion that is not noticed.**  Where `f(1)` was bound to `a` before `g` was defined, `f` is in
memory: it is recursive and passes the check, and `let b = f(1)` is accepted.  Where `1` was bound to
`a`, the same names are in use, and `let b = f(1)` is refused. -/
theorem unnoticed_recursion :
    (after (lateCycle (.call "f" [.literal .one]))).scope.functions.get? detour.name = some detour ∧
    Recursive (after (lateCycle (.call "f" [.literal .one]))).scope.functions detour.name ∧
    (∀ fault c, Lower.checkRecursion (after (lateCycle (.call "f" [.literal .one]))).scope
        detour (after (lateCycle (.call "f" [.literal .one]))).checked ≠ .error fault c) ∧
    (after (lateCycle (.literal .one))).scope =
      (after (lateCycle (.call "f" [.literal .one]))).scope ∧
    (after (lateCycle (.call "f" [.literal .one]))).refusal?
      (.letVar "b" (.call "f" [.literal .one])) = none ∧
    (after (lateCycle (.literal .one))).refusal?
      (.letVar "b" (.call "f" [.literal .one])) = some (.recursiveCall "f") := by
  let s := after (lateCycle (.call "f" [.literal .one]))
  have hf : s.scope.functions.get? detour.name = some detour := by decide +kernel
  have hg : s.scope.functions.get? "g" = some ⟨"g", ["x"], .call "f" [.ident "x"]⟩ := by
    decide +kernel
  have hmem : detour.name ∈ s.checked := by decide +kernel
  refine ⟨hf, ?_, ?_, by decide +kernel, by decide +kernel, by decide +kernel⟩
  · exact .tail (.single ⟨_, hf, by decide +kernel⟩) ⟨_, hg, by decide +kernel⟩
  · intro fault c herror
    rcases checkRecursion_cases hf s.checked with ⟨_, h⟩ | ⟨hnot, _⟩ | ⟨hnot, _⟩
    · exact absurd (herror.symm.trans h) nofun
    · exact hnot hmem
    · exact hnot hmem

end Session

end Straightline
