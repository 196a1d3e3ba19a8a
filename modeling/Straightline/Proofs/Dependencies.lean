import Straightline.Proofs.Reachability
import Straightline.Proofs.Running
import Straightline.Proofs.Steps
import Straightline.Target.Liveness

/-!
# Dependency graphs

A program has a dependency graph exactly if no node of it is misplaced.  The edges then lead from each
target to all variables that occur in the right-hand sides assigned to it, however often it is assigned
(`dependencies_eq_ok`).  What a search of the graph finds is *live*: the live names hold the roots, and a
live assignment has only live names on its right-hand side (`idents_subset_search`).
-/

namespace Straightline

theorem Graph.successors_addEdges_self (g : Graph) (x : String) (ys : List String) :
    (g.addEdges x ys).successors x = g.successors x ++ ys.filter (· ∉ g.successors x) := by
  unfold successors addEdges
  rw [Table.get?_set_self, Option.getD_some]
  rfl

theorem Graph.successors_addEdges_of_ne (g : Graph) {x z : String} (ys : List String) (h : z ≠ x) :
    (g.addEdges x ys).successors z = g.successors z := by
  unfold successors addEdges
  rw [Table.get?_set_of_ne _ _ h]

theorem Graph.mem_successors_addEdges {g : Graph} {x z y : String} {ys : List String} :
    y ∈ (g.addEdges x ys).successors z ↔ y ∈ g.successors z ∨ z = x ∧ y ∈ ys := by
  by_cases hz : z = x
  · subst hz
    rw [successors_addEdges_self, List.mem_append, List.mem_filter, decide_eq_true_eq]
    by_cases hy : y ∈ g.successors z
    · simp only [hy, true_or]
    · simp only [hy, false_or, not_false_eq_true, and_true, true_and]
  · simp only [successors_addEdges_of_ne g ys hz, hz, false_and, or_false]

namespace Target

/-! ## Well-formed programs -/

/-- **No node of the expression is misplaced.** -/
def Expr.WellFormed : Expr → Prop
  | .unary _ e => e.WellFormed
  | .binary l _ r => l.WellFormed ∧ r.WellFormed
  | .stray _ => False
  | _ => True

/-- **The statement is an assignment** in which no node is misplaced. -/
def Stmt.WellFormed : Stmt → Prop
  | .assign _ e => e.WellFormed
  | .stray _ => False

/-- The variables of an expression can be collected exactly if it is well-formed. -/
theorem Expr.reads_eq_ok_iff {e : Expr} {xs : List String} :
    e.reads = .ok xs ↔ e.WellFormed ∧ xs = e.idents := by
  induction e generalizing xs with
  | literal n => simp [reads, WellFormed, idents, eq_comm]
  | ident x => simp [reads, WellFormed, idents, eq_comm]
  | unary op e ih => exact ih
  | binary l op r ihl ihr =>
    rw [reads, bind_eq_ok]
    constructor
    · rintro ⟨ys, hys, h⟩
      obtain ⟨zs, hzs, h⟩ := bind_eq_ok.mp h
      obtain ⟨hl, rfl⟩ := ihl.mp hys
      obtain ⟨hr, rfl⟩ := ihr.mp hzs
      exact ⟨⟨hl, hr⟩, (Except.ok.inj h).symm⟩
    · rintro ⟨⟨hl, hr⟩, rfl⟩
      refine ⟨l.idents, ihl.mpr ⟨hl, rfl⟩, ?_⟩
      rw [ihr.mpr ⟨hr, rfl⟩]
      rfl
  | stray node => simp [reads, WellFormed]

variable {g g' : Graph} {stmts : List Stmt} {roots : List String}

/-! ## Edges -/

theorem exists_dependenciesFrom (g : Graph) (h : ∀ stmt ∈ stmts, stmt.WellFormed) :
    ∃ g', dependenciesFrom g stmts = .ok g' := by
  induction stmts generalizing g with
  | nil => exact ⟨g, rfl⟩
  | cons stmt rest ih =>
    obtain ⟨hstmt, hrest⟩ := List.forall_mem_cons.mp h
    cases stmt with
    | stray node => exact hstmt.elim
    | assign x e =>
      rw [dependenciesFrom, Expr.reads_eq_ok_iff.mpr ⟨hstmt, rfl⟩]
      exact ih _ hrest

/-- What entering statements into a graph adds to it. -/
theorem dependenciesFrom_eq_ok (h : dependenciesFrom g stmts = .ok g') :
    (∀ stmt ∈ stmts, stmt.WellFormed) ∧ ∀ x y, y ∈ g'.successors x ↔
      y ∈ g.successors x ∨ ∃ e, .assign x e ∈ stmts ∧ y ∈ e.idents := by
  induction stmts generalizing g with
  | nil =>
    cases h
    exact ⟨fun stmt hstmt => absurd hstmt List.not_mem_nil, fun x y => by simp⟩
  | cons stmt rest ih =>
    cases stmt with
    | stray node => cases h
    | assign z e =>
      rw [dependenciesFrom] at h
      obtain ⟨xs, hxs, h⟩ := bind_eq_ok.mp h
      obtain ⟨he, rfl⟩ := Expr.reads_eq_ok_iff.mp hxs
      obtain ⟨hrest, hmem⟩ := ih h
      refine ⟨List.forall_mem_cons.mpr ⟨he, hrest⟩, fun x y => ?_⟩
      rw [hmem, Graph.mem_successors_addEdges, List.mem_eraseDups, or_assoc]
      refine or_congr_right ⟨?_, ?_⟩
      · rintro (⟨rfl, hy⟩ | ⟨e', he', hy⟩)
        · exact ⟨e, List.mem_cons_self, hy⟩
        · exact ⟨e', List.mem_cons_of_mem _ he', hy⟩
      · rintro ⟨e', he', hy⟩
        rcases List.mem_cons.mp he' with heq | he'
        · cases heq
          exact Or.inl ⟨rfl, hy⟩
        · exact Or.inr ⟨e', he', hy⟩

/-- **The dependency graph of a program**: only well-formed programs have one, and its edges lead from
each target to what the right-hand sides assigned to it hold. -/
theorem dependencies_eq_ok (h : dependencies stmts = .ok g) :
    (∀ stmt ∈ stmts, stmt.WellFormed) ∧
      ∀ x y, y ∈ g.successors x ↔ ∃ e, .assign x e ∈ stmts ∧ y ∈ e.idents := by
  obtain ⟨hwell, hedges⟩ := dependenciesFrom_eq_ok h
  refine ⟨hwell, fun x y => ?_⟩
  rw [hedges]
  exact or_iff_right List.not_mem_nil

/-! ## Live names -/

theorem roots_subset_search : roots ⊆ g.search roots :=
  fun x hx => Graph.mem_search.mpr ⟨x, hx, .refl⟩

/-- **A live assignment reads live names only.** -/
theorem idents_subset_search (h : dependencies stmts = .ok g) {x : String} {e : Expr}
    (he : .assign x e ∈ stmts) (hx : x ∈ g.search roots) : e.idents ⊆ g.search roots := by
  intro y hy
  obtain ⟨r, hr, hrx⟩ := Graph.mem_search.mp hx
  exact Graph.mem_search.mpr ⟨r, hr, hrx.tail (((dependencies_eq_ok h).2 x y).mpr ⟨e, he, hy⟩)⟩

/-- **What dropping dead assignments leaves**: the assignments to the names that the search finds. -/
theorem dropDead_eq_ok_iff {kept : List Stmt} :
    dropDead roots stmts = .ok kept ↔
      ∃ g, dependencies stmts = .ok g ∧ kept = stmts.filter (Stmt.assigns (g.search roots)) := by
  rw [dropDead, bind_eq_ok]
  refine exists_congr fun g => and_congr_right fun _ => ?_
  exact ⟨fun h => (Except.ok.inj h).symm, fun h => congrArg Except.ok h.symm⟩

end Target

end Straightline
