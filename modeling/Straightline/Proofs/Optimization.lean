import Straightline.Proofs.Dependencies
import Straightline.Proofs.Identities

/-!
# Optimization preserves meaning

`optimize` folds a program and drops the assignments that no root depends on.  The folded program runs
to the same store; the assignments that are kept run to a store that agrees with it on all live names
(`run_filter_assigns`).  Two facts carry the latter: a live assignment reads live names only, since
the live names are all that the search finds, and a dropped assignment changes no live name, since
names that are the same variable are spelled alike.
-/

namespace Straightline

namespace Target

section

variable [Elementary] {s t : Store}

/-! ## Programs that run -/

theorem Expr.wellFormed_of_eval {e : Expr} {v : Number} (h : s.eval e = .ok v) : e.WellFormed := by
  induction e generalizing v with
  | literal n => trivial
  | ident x => trivial
  | unary op e ih =>
    obtain ⟨a, ha, _⟩ := Store.eval_unary_eq_ok.mp h
    exact ih ha
  | binary l op r ihl ihr =>
    obtain ⟨a, b, ha, hb, _⟩ := Store.eval_binary_eq_ok.mp h
    exact ⟨ihl ha, ihr hb⟩
  | stray node => cases h

/-- A program that runs to its end is well-formed. -/
theorem wellFormed_of_run {stmts : List Stmt} (hrun : s.run stmts = .ok () t) :
    ∀ stmt ∈ stmts, stmt.WellFormed := by
  induction stmts generalizing s with
  | nil => exact fun stmt hstmt => absurd hstmt List.not_mem_nil
  | cons stmt rest ih =>
    cases stmt with
    | stray node => cases hrun
    | assign x e =>
      obtain ⟨v, hv, hrun⟩ := Store.run_assign_eq_ok.mp hrun
      exact List.forall_mem_cons.mpr ⟨Expr.wellFormed_of_eval hv, ih hrun⟩

/-! ## Dropping dead assignments -/

omit [Elementary] in
theorem mem_idents_of_mem {stmts : List Stmt} {x : String} {e : Expr} (h : .assign x e ∈ stmts) :
    x ∈ idents stmts ∧ e.idents ⊆ idents stmts := by
  induction stmts with
  | nil => cases h
  | cons stmt rest ih =>
    rcases List.mem_cons.mp h with rfl | h
    · exact ⟨List.mem_cons_self, fun y hy => List.mem_cons_of_mem _ (List.mem_append_left _ hy)⟩
    · obtain ⟨hx, he⟩ := ih h
      have hsub : idents rest ⊆ idents (stmt :: rest) := by
        cases stmt with
        | assign z d => exact fun y hy => List.mem_cons_of_mem _ (List.mem_append_right _ hy)
        | stray node => exact List.Subset.refl _
      exact ⟨hsub hx, fun y hy => hsub (he hy)⟩

/-- **The live part of a program** runs to a store that agrees with the full run on live names. -/
theorem run_filter_assigns {names live : List String} (hspell : SpelledAlike names)
    (hlive : live ⊆ names) {stmts : List Stmt}
    (hclosed : ∀ x e, .assign x e ∈ stmts → x ∈ names ∧ (x ∈ live → e.idents ⊆ live))
    (hrun : s.run stmts = .ok () t) {s' : Store} (hagree : ∀ x ∈ live, s'.get x = s.get x) :
    ∃ t', s'.run (stmts.filter (Stmt.assigns live)) = .ok () t' ∧ ∀ x ∈ live, t'.get x = t.get x := by
  induction stmts generalizing s s' with
  | nil =>
    cases hrun
    exact ⟨s', rfl, hagree⟩
  | cons stmt rest ih =>
    cases stmt with
    | stray node => cases hrun
    | assign x e =>
      obtain ⟨v, hv, hrun⟩ := Store.run_assign_eq_ok.mp hrun
      obtain ⟨hx, hreads⟩ := hclosed x e List.mem_cons_self
      have hrest := fun y d h => hclosed y d (List.mem_cons_of_mem _ h)
      -- names in `live` other than `x` are other variables
      have hother : ∀ y ∈ live, y ≠ x → Text.lower y ≠ Text.lower x :=
        fun y hy hne h => hne (hspell y (hlive hy) x hx h)
      by_cases hmem : x ∈ live
      · -- both runs assign `x`, and what its value depends on is live
        have hv' : s'.eval e = .ok v := by
          rw [Store.eval_congr fun y hy => hagree y (hreads hmem hy), hv]
        have hset : ∀ y ∈ live, (s'.set x v).get y = (s.set x v).get y := by
          intro y hy
          by_cases hyx : y = x
          · rw [hyx, Store.get_set_self, Store.get_set_self]
          · rw [Store.get_set_of_lower_ne _ _ (hother y hy hyx),
              Store.get_set_of_lower_ne _ _ (hother y hy hyx), hagree y hy]
        have hkept : Stmt.assigns live (.assign x e) = true := decide_eq_true hmem
        rw [List.filter_cons_of_pos hkept, Store.run_assign_of_ok hv']
        exact ih hrest hrun hset
      · -- the full run assigns `x`, the live part does not
        have hset : ∀ y ∈ live, s'.get y = (s.set x v).get y := by
          intro y hy
          have hyx : y ≠ x := fun h => hmem (h ▸ hy)
          rw [Store.get_set_of_lower_ne _ _ (hother y hy hyx), hagree y hy]
        have hdropped : ¬ Stmt.assigns live (.assign x e) = true := fun h => hmem (of_decide_eq_true h)
        rw [List.filter_cons_of_neg hdropped]
        exact ih hrest hrun hset

/-- Dropping dead assignments succeeds on a program that runs to its end, and keeps the roots. -/
theorem dropDead_sound {names roots : List String} (hspell : SpelledAlike names)
    (hroots : roots ⊆ names) {stmts : List Stmt} (hsub : idents stmts ⊆ names)
    (hrun : s.run stmts = .ok () t) :
    ∃ kept t', dropDead roots stmts = .ok kept ∧ s.run kept = .ok () t' ∧
      ∀ x ∈ roots, t'.get x = t.get x := by
  obtain ⟨g, hg⟩ : ∃ g, dependencies stmts = .ok g :=
    exists_dependenciesFrom ⟨[]⟩ (wellFormed_of_run hrun)
  -- only roots and names that are read can be reached
  have hlive : g.search roots ⊆ names := by
    refine fun a ha => Graph.searchFrom_subset (P := (· ∈ names)) ?_ roots [] hroots nofun a ha
    intro x _ y hy
    obtain ⟨e, he, hy⟩ := ((dependencies_eq_ok hg).2 x y).mp hy
    exact hsub ((mem_idents_of_mem he).2 hy)
  have hclosed : ∀ x e, .assign x e ∈ stmts →
      x ∈ names ∧ (x ∈ g.search roots → e.idents ⊆ g.search roots) :=
    fun x e he => ⟨hsub (mem_idents_of_mem he).1, idents_subset_search hg he⟩
  obtain ⟨t', ht', hagree⟩ :=
    run_filter_assigns hspell hlive hclosed hrun fun x _ => Eq.refl (s.get x)
  refine ⟨_, t', dropDead_eq_ok_iff.mpr ⟨g, hg, rfl⟩, ht', ?_⟩
  exact fun x hx => hagree x (roots_subset_search hx)

/-- **Optimization preserves meaning.**  Of a program and roots whose names are spelled alike: if the
program runs to its end, then `optimize` succeeds, and what it returns runs to its end from the same
store and gives every root the same value.  Reassignments, assignments that read their own target and
names that are never assigned are all allowed.  Of powers it is assumed that one is neutral at the
operands that the run meets. -/
theorem run_optimize {stmts : List Stmt} {roots : List String}
    (hspell : SpelledAlike (idents stmts ++ roots)) (hrun : s.run stmts = .ok () t)
    (hpow : NeutralAt (s.powersOfRun stmts)) :
    ∃ optimized t', optimize none roots stmts = .ok optimized ∧ s.run optimized = .ok () t' ∧
      ∀ x ∈ roots, t'.get x = t.get x := by
  obtain ⟨folded, hfolded, halike⟩ :=
    foldToFixpoint_sound hspell (List.subset_append_left _ _) hrun hpow
  have hsub : idents folded ⊆ idents stmts ++ roots :=
    fun x hx => List.mem_append_left _ (halike.idents hx)
  obtain ⟨kept, t', hkept, ht', hagree⟩ :=
    dropDead_sound hspell (List.subset_append_right _ _) hsub halike.run
  refine ⟨kept, t', ?_, ht', hagree⟩
  rw [optimize, hfolded]
  exact congrArg (Except.mapError FoldError.misplaced) hkept

end

/-- A program that rebinds `a`, reads `u` without assigning it, takes the powers `5^1` and `1^6` and has no
use for `z`: `a=2 b=a*3 a=a+1 d=u^1 e=1^b z=b-1 c=b/e+a*d`. -/
def rebinding : List Stmt :=
  [.assign "a" (.literal (.ofInt 2)),
    .assign "b" (.binary (.ident "a") .mul (.literal (.ofInt 3))),
    .assign "a" (.binary (.ident "a") .add (.literal .one)),
    .assign "d" (.binary (.ident "u") .pow (.literal .one)),
    .assign "e" (.binary (.literal .one) .pow (.ident "b")),
    .assign "z" (.binary (.ident "b") .sub (.literal .one)),
    .assign "c" (.binary (.binary (.ident "b") .div (.ident "e")) .add
      (.binary (.ident "a") .mul (.ident "d")))]

/-- Run with `5` for `u`, the optimized program finds `6 / 1 + 3 * 5`. -/
theorem run_optimize_rebinding :
    letI : Elementary := .ofPlainValues
    SpelledAlike (idents rebinding ++ ["c"]) ∧
      Store.powersOfRun ⟨[("u", .ofInt 5)]⟩ rebinding = [(.ofInt 5, .one), (.one, .ofInt 6)] ∧
      NeutralAt (Store.powersOfRun ⟨[("u", .ofInt 5)]⟩ rebinding) ∧
      ∃ optimized t, optimize none ["c"] rebinding = .ok optimized ∧
        Store.run ⟨[("u", .ofInt 5)]⟩ optimized = .ok () t ∧ t.get "c" = .ofInt 21 := by
  let _ : Elementary := .ofPlainValues
  have hspell : SpelledAlike (idents rebinding ++ ["c"]) := by
    unfold SpelledAlike
    decide +kernel
  have hpowers : Store.powersOfRun ⟨[("u", .ofInt 5)]⟩ rebinding =
      [(.ofInt 5, .one), (.one, .ofInt 6)] := by decide +kernel
  have hpow : NeutralAt (Store.powersOfRun ⟨[("u", .ofInt 5)]⟩ rebinding) := by
    rw [hpowers]
    exact neutralAt_of_exact Elementary.oneNeutral_ofPlainValues (by decide)
  have hrun : Store.run ⟨[("u", .ofInt 5)]⟩ rebinding = .ok () ⟨[("u", .ofInt 5), ("a", .ofInt 3),
      ("b", .ofInt 6), ("d", .ofInt 5), ("e", .one), ("z", .ofInt 5), ("c", .ofInt 21)]⟩ := by
    decide +kernel
  obtain ⟨optimized, t, hopt, ht, hroots⟩ := run_optimize hspell hrun hpow
  refine ⟨hspell, hpowers, hpow, optimized, t, hopt, ht, ?_⟩
  rw [hroots "c" List.mem_cons_self]
  decide +kernel

end Target

end Straightline
