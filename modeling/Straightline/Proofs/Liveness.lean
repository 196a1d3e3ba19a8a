import Mathlib.Order.Bounds.Basic
import Straightline.Proofs.Dependencies

/-!
# Live names

The names that a program keeps alive are the roots and, with a name, all that is read in any right-hand
side assigned to it (`KeptAlive`).  A search of the dependency graph finds the least such set, and it finds
the same one in whatever order it takes the roots and the dependencies of a name
(`search_isLeast_keptAlive`).  Names may depend on each other in a circle, and on themselves.
-/

namespace Straightline

open Relation (ReflTransGen)

theorem nodup_eraseDups : ∀ xs : List String, xs.eraseDups.Nodup
  | [] => by simp
  | x :: xs => by
    have hlen : (xs.filter fun y => !y == x).length ≤ xs.length := List.length_filter_le _ xs
    rw [List.eraseDups_cons, List.nodup_cons, List.mem_eraseDups]
    exact ⟨by simp, nodup_eraseDups _⟩
termination_by xs => xs.length

namespace Graph

/-- **The dependencies of each node are a set**: none is listed twice. -/
def Simple (g : Graph) : Prop := ∀ x, (g.successors x).Nodup

theorem simple_empty : Simple ⟨[]⟩ := fun _ => List.nodup_nil

theorem Simple.addEdges {g : Graph} (h : g.Simple) (x : String) {ys : List String} (hys : ys.Nodup) :
    (g.addEdges x ys).Simple := by
  intro z
  by_cases hz : z = x
  · subst hz
    rw [successors_addEdges_self, List.nodup_append]
    refine ⟨h z, hys.filter _, fun a ha b hb => ?_⟩
    rintro rfl
    exact of_decide_eq_true (List.mem_filter.mp hb).2 ha
  · rw [successors_addEdges_of_ne g ys hz]
    exact h z

/-- **No search goes on for ever**, whatever order it takes. -/
theorem wellFounded_step (g : Graph) : WellFounded fun t s => g.Step s t :=
  Subrelation.wf (fun h => h.size_lt) (measure (Stage.size g)).wf

end Graph

namespace Target

variable {stmts : List Stmt} {roots : List String} {g g' : Graph}

theorem simple_dependenciesFrom (hg : g.Simple) (h : dependenciesFrom g stmts = .ok g') : g'.Simple := by
  induction stmts generalizing g with
  | nil =>
    cases h
    exact hg
  | cons stmt rest ih =>
    cases stmt with
    | stray node => cases h
    | assign x e =>
      rw [dependenciesFrom] at h
      obtain ⟨xs, _, h⟩ := bind_eq_ok.mp h
      exact ih (hg.addEdges x (nodup_eraseDups xs)) h

/-- **A set of names that the roots keep alive**: it holds the roots and, with a name, every name in a
right-hand side assigned to it. -/
structure KeptAlive (roots : List String) (stmts : List Stmt) (live : Set String) : Prop where
  roots : ∀ x ∈ roots, x ∈ live
  reads : ∀ x e, .assign x e ∈ stmts → x ∈ live → ∀ y ∈ e.idents, y ∈ live

theorem keptAlive_search (h : dependencies stmts = .ok g) :
    KeptAlive roots stmts {x | x ∈ g.search roots} where
  roots _ hx := roots_subset_search hx
  reads _ _ he hx _ hy := idents_subset_search h he hx hy

/-- What the search finds is in every set that the roots keep alive. -/
theorem KeptAlive.search_subset {live : Set String} (hlive : KeptAlive roots stmts live)
    (h : dependencies stmts = .ok g) : ∀ x ∈ g.search roots, x ∈ live := by
  refine Graph.searchFrom_subset (fun x hx y hy => ?_) roots [] hlive.roots nofun
  obtain ⟨e, he, hy⟩ := ((dependencies_eq_ok h).2 x y).mp hy
  exact hlive.reads x e he hx y hy

/-- **The liveness search is exact reachability.**  A well-formed program has a dependency graph, in which
each name has the set of the names that are read in right-hand sides assigned to it.  The search finds the
least set that the roots keep alive.  A search that takes the roots and the dependencies in any other
order ends as well, and with the same names. -/
theorem search_isLeast_keptAlive (h : ∀ stmt ∈ stmts, stmt.WellFormed) (roots : List String) :
    ∃ g, dependencies stmts = .ok g ∧
      (∀ x, (g.successors x).Nodup ∧
        ∀ y, y ∈ g.successors x ↔ ∃ e, .assign x e ∈ stmts ∧ y ∈ e.idents) ∧
      IsLeast {live | KeptAlive roots stmts live} {x | x ∈ g.search roots} ∧
      (WellFounded fun t s => g.Step s t) ∧
      ∀ start s, (∀ x, x ∈ start ↔ x ∈ roots) → ReflTransGen g.Step ⟨start, []⟩ s →
        (s.stack ≠ [] → ∃ t, g.Step s t) ∧
        (s.stack = [] → ∀ x, x ∈ s.found ↔ x ∈ g.search roots) := by
  obtain ⟨g, hg⟩ : ∃ g, dependencies stmts = .ok g := exists_dependenciesFrom ⟨[]⟩ h
  have hsimple : g.Simple := simple_dependenciesFrom Graph.simple_empty hg
  refine ⟨g, hg, fun x => ⟨hsimple x, (dependencies_eq_ok hg).2 x⟩, ?_, g.wellFounded_step, ?_⟩
  · exact ⟨keptAlive_search hg, fun live hlive x hx => hlive.search_subset hg x hx⟩
  · intro start s hstart hsteps
    refine ⟨Graph.exists_step, fun hstack x => ?_⟩
    rw [((Graph.Stage.Underway.initial hstart).steps hsteps).mem_found hstack, Graph.mem_search]

/-- `a = b + a`, `b = a`, `b = c` and `d = e`: the names `a` and `b` depend on each other, and `a` on
itself. -/
def circular : List Stmt :=
  [.assign "a" (.binary (.ident "b") .add (.ident "a")), .assign "b" (.ident "a"),
    .assign "b" (.ident "c"), .assign "d" (.ident "e")]

/-- The root `a` keeps `a`, `b` and `c` alive, and neither `d` nor `e`. -/
theorem search_isLeast_keptAlive_circular :
    (∀ stmt ∈ circular, stmt.WellFormed) ∧ ∃ g, dependencies circular = .ok g ∧
      IsLeast {live | KeptAlive ["a"] circular live} {x | x ∈ g.search ["a"]} ∧
      ∀ x, x ∈ g.search ["a"] ↔ x ∈ ["a", "b", "c"] := by
  have hwell : ∀ stmt ∈ circular, stmt.WellFormed := by
    simp [circular, Stmt.WellFormed, Expr.WellFormed]
  obtain ⟨g, hg, _, hleast, _⟩ := search_isLeast_keptAlive hwell ["a"]
  have hlive : KeptAlive ["a"] circular {x | x ∈ ["a", "b", "c"]} := by
    refine ⟨by simp, fun x e he hx => ?_⟩
    simp only [circular, List.mem_cons, Stmt.assign.injEq, List.not_mem_nil, or_false] at he
    rcases he with ⟨rfl, rfl⟩ | ⟨rfl, rfl⟩ | ⟨rfl, rfl⟩ | ⟨rfl, rfl⟩
    · simp [Expr.idents]
    · simp [Expr.idents]
    · simp [Expr.idents]
    · simp at hx
  have ha : "a" ∈ g.search ["a"] := hleast.1.roots "a" List.mem_cons_self
  have hb : "b" ∈ g.search ["a"] :=
    hleast.1.reads "a" _ List.mem_cons_self ha "b" (by decide)
  have hc : "c" ∈ g.search ["a"] :=
    hleast.1.reads "b" (.ident "c") (by decide) hb "c" (by decide)
  refine ⟨hwell, g, hg, hleast, fun x => ⟨fun hx => hleast.2 hlive hx, fun hx => ?_⟩⟩
  simp only [List.mem_cons, List.not_mem_nil, or_false] at hx
  rcases hx with rfl | rfl | rfl
  · exact ha
  · exact hb
  · exact hc

end Target

end Straightline
