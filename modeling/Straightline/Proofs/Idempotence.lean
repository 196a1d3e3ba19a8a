import Straightline.Proofs.Dependencies
import Straightline.Proofs.Settling

/-!
# Optimizing twice

Optimizing a program that was optimized changes nothing.  Folding leaves a settled program, in which it
finds nothing more to do.  Dropping dead assignments takes bindings away that folding would have seen,
but none that a live assignment reads, so what is kept is still settled (`Settled.filter_assigns`).  And
every path from a root leads through live names only, whose assignments are all kept, so the second
search finds what the first one found (`search_filter_assigns`).
-/

namespace Straightline.Target

section

variable [Elementary] {b b' : Table Expr} {stmts kept : List Stmt} {live roots : List String}

/-! ## Folding what is kept -/

/-- Whether an expression is settled depends on the bindings of the variables that occur in it and on no
others. -/
theorem Expr.Settled.congr {e : Expr} (h : e.Settled b) (hagree : ∀ x ∈ e.idents, b'.get? x = b.get? x) :
    e.Settled b' := by
  induction e with
  | literal n => trivial
  | ident x =>
    intro n
    rw [hagree x List.mem_cons_self]
    exact h n
  | unary op e ih => exact ⟨ih h.1 hagree, h.2⟩
  | binary l op r ihl ihr =>
    obtain ⟨hl, hr, hrest⟩ := h
    exact ⟨ihl hl fun x hx => hagree x (List.mem_append_left _ hx),
      ihr hr fun x hx => hagree x (List.mem_append_right _ hx), hrest⟩
  | stray node => exact h.elim

/-- **The live part of a settled program is settled.**  The bindings it goes through are those of the
whole program at all live names. -/
theorem Settled.filter_assigns (h : Settled b stmts)
    (hclosed : ∀ x e, .assign x e ∈ stmts → x ∈ live → e.idents ⊆ live)
    (hagree : ∀ x ∈ live, b'.get? x = b.get? x) :
    Settled b' (stmts.filter (Stmt.assigns live)) := by
  induction stmts generalizing b b' with
  | nil => trivial
  | cons stmt rest ih =>
    cases stmt with
    | stray node => exact h.elim
    | assign x e =>
      obtain ⟨he, hrest⟩ := h
      have hclosed' := fun y d hd => hclosed y d (List.mem_cons_of_mem _ hd)
      by_cases hx : x ∈ live
      · have hkept : Stmt.assigns live (.assign x e) = true := decide_eq_true hx
        rw [List.filter_cons_of_pos hkept]
        refine ⟨he.congr fun y hy => hagree y (hclosed x e List.mem_cons_self hx hy), ?_⟩
        refine ih hrest hclosed' fun y hy => ?_
        by_cases hyx : y = x
        · rw [hyx, Table.get?_set_self, Table.get?_set_self]
        · rw [Table.get?_set_of_ne _ _ hyx, Table.get?_set_of_ne _ _ hyx, hagree y hy]
      · -- the binding of `x` is lost, but nothing that is kept reads `x`
        have hdropped : ¬ Stmt.assigns live (.assign x e) = true := fun h => hx (of_decide_eq_true h)
        rw [List.filter_cons_of_neg hdropped]
        refine ih hrest hclosed' fun y hy => ?_
        have hyx : y ≠ x := fun h => hx (h ▸ hy)
        rw [Table.get?_set_of_ne _ _ hyx, hagree y hy]

/-! ## Searching what is kept -/

omit [Elementary] in
/-- **The live names of the live part** are those of the program. -/
theorem search_filter_assigns {g g' : Graph} (hg : dependencies stmts = .ok g)
    (hg' : dependencies (stmts.filter (Stmt.assigns (g.search roots))) = .ok g') :
    g.search roots ⊆ g'.search roots := by
  intro x hx
  obtain ⟨r, hr, hrx⟩ := Graph.mem_search.mp hx
  refine Graph.mem_search.mpr ⟨r, hr, ?_⟩
  induction hrx with
  | refl => exact .refl
  | tail hra hstep ih =>
    rename_i a c
    have ha : a ∈ g.search roots := Graph.mem_search.mpr ⟨r, hr, hra⟩
    obtain ⟨e, he, hc⟩ := ((dependencies_eq_ok hg).2 a c).mp hstep
    have hkept : .assign a e ∈ stmts.filter (Stmt.assigns (g.search roots)) :=
      List.mem_filter.mpr ⟨he, decide_eq_true ha⟩
    exact (ih ha).tail (((dependencies_eq_ok hg').2 a c).mpr ⟨e, hkept, hc⟩)

omit [Elementary] in
/-- Dropping dead assignments a second time drops nothing. -/
theorem dropDead_dropDead (h : dropDead roots stmts = .ok kept) : dropDead roots kept = .ok kept := by
  obtain ⟨g, hg, rfl⟩ := dropDead_eq_ok_iff.mp h
  obtain ⟨g', hg'⟩ : ∃ g', dependencies (stmts.filter (Stmt.assigns (g.search roots))) = .ok g' :=
    exists_dependenciesFrom _ fun stmt hstmt =>
      (dependencies_eq_ok hg).1 stmt (List.mem_filter.mp hstmt).1
  refine dropDead_eq_ok_iff.mpr ⟨g', hg', ?_⟩
  refine (List.filter_eq_self.mpr fun stmt hstmt => ?_).symm
  have hlive := (List.mem_filter.mp hstmt).2
  cases stmt with
  | stray node => cases hlive
  | assign x e => exact decide_eq_true (search_filter_assigns hg hg' (of_decide_eq_true hlive))

/-- **Optimization is idempotent.**  What it returns for some roots it returns unchanged for the same
roots, whatever the limits on sweeps.  Names may be rebound, roots may be unassigned, and operations
without a value may be left. -/
theorem optimize_optimize {limit : Option Int} (h : optimize limit roots stmts = .ok kept)
    (limit' : Option Int) : optimize limit' roots kept = .ok kept := by
  rw [optimize] at h
  obtain ⟨folded, hfixpoint, hdrop⟩ := bind_eq_ok.mp h
  have hdrop := mapError_eq_ok.mp hdrop
  obtain ⟨g, hg, hkept⟩ := dropDead_eq_ok_iff.mp hdrop
  have hsettled : Settled [] folded := foldFrom_settled (fold_of_foldToFixpoint hfixpoint)
  have hlive : Settled [] kept := by
    rw [hkept]
    exact hsettled.filter_assigns (fun x e he => idents_subset_search hg he) fun x _ => rfl
  have hfold : foldToFixpoint limit' kept = .ok kept :=
    foldAgain_of_unchanged limit' 0 (foldFrom_of_settled hlive)
  rw [optimize, hfold]
  exact mapError_eq_ok.mpr (dropDead_dropDead hdrop)

end

/-- A program that rebinds `a`, divides by zero and has no use for `z`:
`a=u+0 z=1+1 b=1/0-a a=a+2*3 c=b+z*0`. -/
def stalled : List Stmt :=
  [.assign "a" (.binary (.ident "u") .add (.literal .zero)),
    .assign "z" (.binary (.literal .one) .add (.literal .one)),
    .assign "b" (.binary (.binary (.literal .one) .div (.literal .zero)) .sub (.ident "a")),
    .assign "a" (.binary (.ident "a") .add (.binary (.literal (.ofInt 2)) .mul (.literal (.ofInt 3)))),
    .assign "c" (.binary (.ident "b") .add (.binary (.ident "z") .mul (.literal .zero)))]

/-- What it is folded to: `a=u z=2 b=1/0-a a=a+6 c=b`. -/
def stalledFolded : List Stmt :=
  [.assign "a" (.ident "u"),
    .assign "z" (.literal (.ofInt 2)),
    .assign "b" (.binary (.binary (.literal .one) .div (.literal .zero)) .sub (.ident "a")),
    .assign "a" (.binary (.ident "a") .add (.literal (.ofInt 6))),
    .assign "c" (.ident "b")]

/-- What is left of it without `z`. -/
def stalledKept : List Stmt := stalledFolded.eraseIdx 1

/-- For the roots `c` and `v`, of which `v` is never assigned, it is optimized to `a=u b=1/0-a a=a+6 c=b`
and stays so. -/
theorem optimize_optimize_stalled :
    optimize none ["c", "v"] stalled = .ok stalledKept ∧
      optimize (some 1) ["c", "v"] stalledKept = .ok stalledKept := by
  have hfold : fold stalled = .ok stalledFolded := rfl
  have hdrop : dropDead ["c", "v"] stalledFolded = .ok stalledKept :=
    eq_ok_of_toOption (by decide +kernel)
  have hoptimize : optimize none ["c", "v"] stalled = .ok stalledKept :=
    bind_eq_ok.mpr ⟨_, foldToFixpoint_none hfold, mapError_eq_ok.mpr hdrop⟩
  exact ⟨hoptimize, optimize_optimize hoptimize (some 1)⟩

end Straightline.Target
