import Mathlib.Logic.Relation
import Straightline.Graph

/-!
# What a search finds

`Graph.search` finds exactly the nodes that can be reached from its roots (`mem_search`).

A search need not take the successors of a node in the order of their list.  `Graph.Step` is one round of
the loop in which they go on the stack in any order, and `searchFrom` is one way to take such steps
(`steps_searchFrom`).  So what is true of all searches is read off the single step.  The invariant of the
loop: the successors of every node already found are themselves found or wait on the stack
(`Stage.Underway`).  The measure that ends it: a node that is opened uses up its share of the entries
(`Step.size_lt`).
-/

namespace Straightline.Graph

open Relation (ReflTransGen)

variable {g : Graph} {x y : String}

/-- **A node reaches another** along edges of the graph. -/
def Reaches (g : Graph) : String → String → Prop :=
  ReflTransGen fun a b => b ∈ g.successors a

/-! ## Steps -/

/-- **A search on its way**: the nodes that wait on its stack, and those that it has found. -/
structure Stage where
  stack : List String
  found : List String

/-- **A round of a search**: it takes a node off the stack and, if the node is new, puts its successors
there in any order. -/
inductive Step (g : Graph) : Stage → Stage → Prop
  | skip {x : String} {rest found : List String} (known : x ∈ found) :
    Step g ⟨x :: rest, found⟩ ⟨rest, found⟩
  | visit {x : String} {rest found ys : List String} (new : x ∉ found)
      (order : ys.Perm (g.successors x)) : Step g ⟨x :: rest, found⟩ ⟨ys ++ rest, x :: found⟩

variable {s t : Stage}

/-- The stack, and what is still unopened of the entries. -/
def Stage.size (g : Graph) (s : Stage) : Nat := unopened s.found g.edges + s.stack.length

/-- The successors of a node that is opened take no more room than its entry. -/
theorem unopened_add_length_le {found : List String} (h : x ∉ found) :
    unopened (x :: found) g.edges + (g.successors x).length ≤ unopened found g.edges := by
  have hle := unopened_cons_add_le h g.edges
  unfold successors
  cases hx : g.edges.get? x with
  | none => simp [hx] at hle ⊢; omega
  | some ys => simp [hx] at hle ⊢; omega

theorem Step.size_lt (h : g.Step s t) : t.size g < s.size g := by
  cases h with
  | skip known => simp [Stage.size]
  | visit new order =>
    have hle := unopened_add_length_le (g := g) new
    simp only [Stage.size, List.length_append, List.length_cons, order.length_eq]
    omega

/-- Only an empty stack ends a search. -/
theorem exists_step (h : s.stack ≠ []) : ∃ t, g.Step s t := by
  obtain ⟨stack, found⟩ := s
  obtain ⟨x, rest, rfl⟩ := List.exists_cons_of_ne_nil h
  by_cases hx : x ∈ found
  · exact ⟨_, .skip hx⟩
  · exact ⟨_, .visit hx (List.Perm.refl _)⟩

/-- **`searchFrom` takes such steps** until the stack is empty. -/
theorem steps_searchFrom (stack found : List String) :
    ReflTransGen g.Step ⟨stack, found⟩ ⟨[], g.searchFrom stack found⟩ := by
  induction stack, found using searchFrom.induct g with
  | case1 found =>
    rw [searchFrom]
  | case2 found x rest hx ih =>
    rw [searchFrom, if_pos hx]
    exact .head (.skip hx) ih
  | case3 found x rest hx ih =>
    rw [searchFrom, if_neg hx]
    exact .head (.visit hx (List.Perm.refl _)) ih

/-! ## What steps keep -/

namespace Stage

/-- A node has come up in a search. -/
def Met (s : Stage) (x : String) : Prop := x ∈ s.stack ∨ x ∈ s.found

end Stage

/-- A step forgets no node. -/
theorem Step.met (h : g.Step s t) (hx : s.Met x) : t.Met x := by
  cases h with
  | skip known =>
    rcases hx with hx | hx
    · rcases List.mem_cons.mp hx with rfl | hx
      · exact Or.inr known
      · exact Or.inl hx
    · exact Or.inr hx
  | visit new order =>
    rcases hx with hx | hx
    · rcases List.mem_cons.mp hx with rfl | hx
      · exact Or.inr List.mem_cons_self
      · exact Or.inl (List.mem_append_right _ hx)
    · exact Or.inr (List.mem_cons_of_mem _ hx)

/-- What comes up in a step has come up before, or follows a node that has. -/
theorem Step.met_or_successor (h : g.Step s t) (hy : t.Met y) :
    s.Met y ∨ ∃ x, s.Met x ∧ y ∈ g.successors x := by
  cases h with
  | skip known =>
    rcases hy with hy | hy
    · exact Or.inl (Or.inl (List.mem_cons_of_mem _ hy))
    · exact Or.inl (Or.inr hy)
  | @visit x rest found ys new order =>
    rcases hy with hy | hy
    · rcases List.mem_append.mp hy with hy | hy
      · exact Or.inr ⟨x, Or.inl List.mem_cons_self, order.mem_iff.mp hy⟩
      · exact Or.inl (Or.inl (List.mem_cons_of_mem _ hy))
    · rcases List.mem_cons.mp hy with rfl | hy
      · exact Or.inl (Or.inl List.mem_cons_self)
      · exact Or.inl (Or.inr hy)

/-- What a step finds was found before, or the step has brought up its successors. -/
theorem Step.found_or_opened (h : g.Step s t) (hx : x ∈ t.found) :
    x ∈ s.found ∨ ∀ y ∈ g.successors x, t.Met y := by
  cases h with
  | skip known => exact Or.inl hx
  | visit new order =>
    rcases List.mem_cons.mp hx with rfl | hx
    · exact Or.inr fun y hy => Or.inl (List.mem_append_left _ (order.mem_iff.mpr hy))
    · exact Or.inl hx

/-- A search keeps to any set that holds its nodes and is closed under successors. -/
theorem met_of_steps {P : String → Prop} (hclosed : ∀ a, P a → ∀ b ∈ g.successors a, P b)
    (h : ReflTransGen g.Step s t) (hs : ∀ a, s.Met a → P a) : ∀ a, t.Met a → P a := by
  induction h with
  | refl => exact hs
  | tail _ hstep ih =>
    intro b hb
    rcases hstep.met_or_successor hb with hb | ⟨a, ha, hb⟩
    · exact ih b hb
    · exact hclosed a (ih a ha) b hb

theorem searchFrom_subset {P : String → Prop} (hclosed : ∀ a, P a → ∀ b ∈ g.successors a, P b)
    (stack found : List String) (hstack : ∀ a ∈ stack, P a) (hfound : ∀ a ∈ found, P a) :
    ∀ a ∈ g.searchFrom stack found, P a := by
  have hmet : ∀ a, Stage.Met ⟨stack, found⟩ a → P a := fun a ha => ha.elim (hstack a) (hfound a)
  exact fun a ha => met_of_steps hclosed (steps_searchFrom stack found) hmet a (Or.inr ha)

/-- **The invariant of a search** from some roots: what has come up is reached from a root, every root has
come up, and so has every successor of a node that is found. -/
structure Stage.Underway (g : Graph) (roots : List String) (s : Stage) : Prop where
  reached : ∀ x, s.Met x → ∃ r ∈ roots, g.Reaches r x
  started : ∀ r ∈ roots, s.Met r
  opened : ∀ x ∈ s.found, ∀ y ∈ g.successors x, s.Met y

variable {roots start : List String}

theorem Stage.Underway.initial (h : ∀ x, x ∈ start ↔ x ∈ roots) : Underway g roots ⟨start, []⟩ where
  reached x hx := ⟨x, (h x).mp (hx.resolve_right List.not_mem_nil), .refl⟩
  started r hr := Or.inl ((h r).mpr hr)
  opened := nofun

theorem Stage.Underway.step (h : s.Underway g roots) (hstep : g.Step s t) : t.Underway g roots where
  reached y hy := by
    rcases hstep.met_or_successor hy with hy | ⟨x, hx, hxy⟩
    · exact h.reached y hy
    · obtain ⟨r, hr, hrx⟩ := h.reached x hx
      exact ⟨r, hr, hrx.tail hxy⟩
  started r hr := hstep.met (h.started r hr)
  opened x hx := by
    rcases hstep.found_or_opened hx with hx | hopened
    · exact fun y hy => hstep.met (h.opened x hx y hy)
    · exact hopened

theorem Stage.Underway.steps (h : s.Underway g roots) (hsteps : ReflTransGen g.Step s t) :
    t.Underway g roots := by
  induction hsteps with
  | refl => exact h
  | tail _ hstep ih => exact ih.step hstep

/-- When its stack is empty, a search has found exactly what the roots reach. -/
theorem Stage.Underway.mem_found (h : s.Underway g roots) (hstack : s.stack = []) :
    x ∈ s.found ↔ ∃ r ∈ roots, g.Reaches r x := by
  have hmet : ∀ y, s.Met y → y ∈ s.found := fun y hy => hy.resolve_left (by simp [hstack])
  constructor
  · exact fun hx => h.reached x (Or.inr hx)
  · rintro ⟨r, hr, hrx⟩
    induction hrx with
    | refl => exact hmet r (h.started r hr)
    | tail _ hstep ih => exact hmet _ (h.opened _ ih _ hstep)

/-- **A search finds exactly what its roots reach.** -/
theorem mem_search : x ∈ g.search roots ↔ ∃ r ∈ roots, g.Reaches r x :=
  ((Stage.Underway.initial fun _ => Iff.rfl).steps (steps_searchFrom roots [])).mem_found rfl

end Straightline.Graph
