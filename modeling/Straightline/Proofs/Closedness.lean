import Straightline.Proofs.Dependencies
import Straightline.Proofs.Identities
import Straightline.Proofs.Spelling

/-!
# Closed programs fold completely

A program is closed if every variable that it reads was assigned before, in the same spelling
(`Grounded []`).  One sweep of folding then computes what a run would: each right-hand side becomes the
literal that the run assigns there.

That folding gets every value right is known (`Expr.reduce_sound`), so it remains to see that it leaves
nothing undone.  In what it leaves no variable occurs, as all of them are bound to literals by then, and
a settled expression without variables that has a value is a literal (`Expr.Settled.eq_literal`).
-/

namespace Straightline.Target

section

variable [Elementary] {s t : Store} {bindings : Table Expr} {stmts : List Stmt}

/-! ## Expressions -/

/-- Of a settled expression without variables nothing is left but its value, if it has one. -/
theorem Expr.Settled.eq_literal {e : Expr} {v : Number} (h : e.Settled bindings)
    (hidents : e.idents = []) (hv : s.eval e = .ok v) : e = .literal v := by
  induction e generalizing v with
  | literal n => exact congrArg Expr.literal (Except.ok.inj hv)
  | ident x => cases hidents
  | unary op e ih =>
    obtain ⟨a, ha, hv⟩ := Store.eval_unary_eq_ok.mp hv
    obtain ⟨fault, hfault, _⟩ := h.2 a (ih h.1 hidents ha)
    rw [hfault] at hv
    cases hv
  | binary l op r ihl ihr =>
    obtain ⟨a, b, ha, hb, hv⟩ := Store.eval_binary_eq_ok.mp hv
    obtain ⟨hl, hr⟩ := List.append_eq_nil_iff.mp hidents
    obtain ⟨hsl, hsr, _, hfails⟩ := h
    obtain ⟨fault, hfault, _⟩ := hfails a b (ihl hsl hl ha) (ihr hsr hr hb)
    rw [hfault] at hv
    cases hv
  | stray node => exact h.elim

/-- No variable of a settled expression is bound to a literal. -/
theorem Expr.Settled.not_bound {e : Expr} {x : String} {n : Number} (h : e.Settled bindings)
    (hx : x ∈ e.idents) : bindings.get? x ≠ some (.literal n) := by
  induction e with
  | literal m => cases hx
  | ident y =>
    obtain rfl := List.mem_singleton.mp hx
    exact h n
  | unary op e ih => exact ih h.1 hx
  | binary l op r ihl ihr =>
    rcases List.mem_append.mp hx with hx | hx
    · exact ihl h.1 hx
    · exact ihr h.2.1 hx
  | stray node => exact h.elim

/-- **An expression all of whose variables are bound to literals** folds to its value. -/
theorem Expr.reduce_eq_literal (hb : Agrees bindings s) {e : Expr} {v : Number}
    (hbound : ∀ x ∈ e.idents, ∃ n, bindings.get? x = some (.literal n)) (hv : s.eval e = .ok v)
    (hpow : NeutralAt (s.powers e)) : e.reduce bindings = .ok (.literal v) := by
  obtain ⟨d, hd, hstands⟩ := reduce_sound hb hv hpow
  have hsettled : d.Settled bindings := reduce_settled hd
  have hidents : d.idents = [] := by
    refine List.eq_nil_iff_forall_not_mem.mpr fun x hx => ?_
    obtain ⟨n, hn⟩ := hbound x (hstands.idents hx)
    exact hsettled.not_bound hx hn
  rw [hd, hsettled.eq_literal hidents hstands.eval]

/-! ## Programs -/

/-- **The assignments that a run makes**: each target, with the value that it receives as a literal. -/
def Store.trace (s : Store) : List Stmt → List Stmt
  | [] => []
  | .assign x e :: rest =>
    match s.eval e with
    | .ok v => .assign x (.literal v) :: (s.set x v).trace rest
    | .error _ => []
  | .stray _ :: _ => []

theorem Store.trace_assign {x : String} {e : Expr} {v : Number} (h : s.eval e = .ok v)
    (rest : List Stmt) :
    s.trace (.assign x e :: rest) = .assign x (.literal v) :: (s.set x v).trace rest := by
  rw [trace, h]

theorem Store.length_trace (hrun : s.run stmts = .ok () t) : (s.trace stmts).length = stmts.length := by
  induction stmts generalizing s with
  | nil => rfl
  | cons stmt rest ih =>
    cases stmt with
    | stray node => cases hrun
    | assign x e =>
      obtain ⟨v, hv, hrun⟩ := run_assign_eq_ok.mp hrun
      rw [trace_assign hv, List.length_cons, List.length_cons, ih hrun]

/-- The trace at a statement: the value of its right-hand side in the store that the statements before it
lead to. -/
theorem Store.getElem?_trace {before after : List Stmt} {x : String} {e : Expr}
    (hrun : s.run (before ++ .assign x e :: after) = .ok () t) :
    ∃ u v, s.run before = .ok () u ∧ u.eval e = .ok v ∧
      (s.trace (before ++ .assign x e :: after))[before.length]? = some (.assign x (.literal v)) := by
  induction before generalizing s with
  | nil =>
    obtain ⟨v, hv, _⟩ := run_assign_eq_ok.mp hrun
    refine ⟨s, v, rfl, hv, ?_⟩
    rw [List.nil_append, trace_assign hv]
    rfl
  | cons stmt before ih =>
    cases stmt with
    | stray node => cases hrun
    | assign y d =>
      obtain ⟨w, hw, hrun⟩ := run_assign_eq_ok.mp hrun
      obtain ⟨u, v, hu, hv, hat⟩ := ih hrun
      refine ⟨u, v, ?_, hv, ?_⟩
      · rw [run_assign_of_ok hw, hu]
      · rw [List.cons_append, trace_assign hw]
        exact hat

/-- A sweep from true bindings over a program that reads only what is bound to literals: after each
assignment its target is bound to one too. -/
theorem foldFrom_eq_trace {names known : List String} (hspell : SpelledAlike names)
    (hb : Agrees bindings s) (hnames : ∀ y e, bindings.get? y = some e → y ∈ names)
    (hbound : ∀ y ∈ known, ∃ n, bindings.get? y = some (.literal n)) (hclosed : Grounded known stmts)
    (hsub : idents stmts ⊆ names) (hrun : s.run stmts = .ok () t)
    (hpow : NeutralAt (s.powersOfRun stmts)) : foldFrom bindings stmts = .ok (s.trace stmts) := by
  induction stmts generalizing s bindings known with
  | nil => rfl
  | cons stmt rest ih =>
    cases stmt with
    | stray node => cases hrun
    | assign x e =>
      obtain ⟨v, hv, hrun⟩ := Store.run_assign_eq_ok.mp hrun
      obtain ⟨⟨xs, hreads, hknown⟩, hrest⟩ := hclosed
      obtain ⟨-, rfl⟩ := Expr.reads_eq_ok_iff.mp hreads
      rw [Store.powersOfRun_assign hv] at hpow
      have hliteral : e.reduce bindings = .ok (.literal v) :=
        Expr.reduce_eq_literal hb (fun y hy => hbound y (hknown hy)) hv
          (hpow.mono (List.subset_append_left _ _))
      have hx : x ∈ names := hsub List.mem_cons_self
      have hbound' : ∀ y ∈ x :: known, ∃ n, (bindings.set x (.literal v)).get? y = some (.literal n) := by
        intro y hy
        by_cases hyx : y = x
        · exact ⟨v, hyx ▸ Table.get?_set_self _ _ _⟩
        · rw [Table.get?_set_of_ne _ _ hyx]
          exact hbound y ((List.mem_cons.mp hy).resolve_left hyx)
      have hfolded : foldFrom (bindings.set x (.literal v)) rest = .ok ((s.set x v).trace rest) :=
        ih (hb.set hnames hspell hx rfl) (mem_names_of_get?_set hnames hx) hbound' hrest
          (fun y hy => hsub (List.mem_cons_of_mem _ (List.mem_append_right _ hy))) hrun
          (hpow.mono (List.subset_append_right _ _))
      rw [Store.trace_assign hv]
      simp only [foldFrom, hliteral, bind, Except.bind, hfolded]
      rfl

/-- **Closed programs fold completely.**  Let every variable that a program reads be assigned before in
the same spelling, and names that are the same variable be spelled alike.  If the program runs to its
end, from whatever store, then one sweep returns a program of the same length that assigns to each target
the literal that the run assigns there.  Of powers it is assumed that one is neutral at the operands that
the run meets. -/
theorem fold_closed (hclosed : Grounded [] stmts) (hspell : SpelledAlike (idents stmts))
    (hrun : s.run stmts = .ok () t) (hpow : NeutralAt (s.powersOfRun stmts)) :
    ∃ folded, fold stmts = .ok folded ∧ folded.length = stmts.length ∧
      ∀ before x e after, stmts = before ++ .assign x e :: after →
        ∃ u v, s.run before = .ok () u ∧ u.eval e = .ok v ∧
          folded[before.length]? = some (.assign x (.literal v)) := by
  have hb : Agrees [] s := fun x n h => by cases h
  have hnames : ∀ y e, Table.get? ([] : Table Expr) y = some e → y ∈ idents stmts :=
    fun y e h => by cases h
  have hfold : fold stmts = .ok (s.trace stmts) :=
    foldFrom_eq_trace hspell hb hnames (fun y hy => absurd hy List.not_mem_nil) hclosed
      (List.Subset.refl _) hrun hpow
  refine ⟨s.trace stmts, hfold, Store.length_trace hrun, ?_⟩
  rintro before x e after rfl
  exact Store.getElem?_trace hrun

end

/-- A program that rebinds `a` in terms of itself and takes the powers `7^1` and `1^5`:
`a=2 b=a*3-1 a=a+b c=b<a and not 0 e=a^1 f=1^b d=abs (c-e)/b*f`. -/
def tally : List Stmt :=
  [.assign "a" (.literal (.ofInt 2)),
    .assign "b" (.binary (.binary (.ident "a") .mul (.literal (.ofInt 3))) .sub (.literal .one)),
    .assign "a" (.binary (.ident "a") .add (.ident "b")),
    .assign "c" (.binary (.binary (.ident "b") .lt (.ident "a")) .and (.unary .not (.literal .zero))),
    .assign "e" (.binary (.ident "a") .pow (.literal .one)),
    .assign "f" (.binary (.literal .one) .pow (.ident "b")),
    .assign "d" (.binary (.binary (.unary .abs (.binary (.ident "c") .sub (.ident "e"))) .div (.ident "b"))
      .mul (.ident "f"))]

/-- One sweep turns it into `a=2 b=5 a=7 c=1 e=7 f=1 d=1.2`, of which the last is shown. -/
theorem fold_closed_tally :
    letI : Elementary := .ofPlainValues
    Grounded [] tally ∧ SpelledAlike (idents tally) ∧
      Store.powersOfRun ⟨[]⟩ tally = [(.ofInt 7, .one), (.one, .ofInt 5)] ∧
      NeutralAt (Store.powersOfRun ⟨[]⟩ tally) ∧
      ∃ folded, fold tally = .ok folded ∧ folded.length = 7 ∧
        folded[6]? = some (.assign "d" (.literal (.ofRaw 12000))) := by
  let _ : Elementary := .ofPlainValues
  have hclosed : Grounded [] tally :=
    ⟨⟨_, rfl, by decide⟩, ⟨_, rfl, by decide⟩, ⟨_, rfl, by decide⟩, ⟨_, rfl, by decide⟩,
      ⟨_, rfl, by decide⟩, ⟨_, rfl, by decide⟩, ⟨_, rfl, by decide⟩, trivial⟩
  have hspell : SpelledAlike (idents tally) := by
    unfold SpelledAlike
    decide +kernel
  have hpowers : Store.powersOfRun ⟨[]⟩ tally = [(.ofInt 7, .one), (.one, .ofInt 5)] := by
    decide +kernel
  have hpow : NeutralAt (Store.powersOfRun ⟨[]⟩ tally) := by
    rw [hpowers]
    exact neutralAt_of_exact Elementary.oneNeutral_ofPlainValues (by decide)
  have hbefore : Store.run ⟨[]⟩ (tally.take 6) =
      .ok () ⟨[("a", .ofInt 7), ("b", .ofInt 5), ("c", .one), ("e", .ofInt 7), ("f", .one)]⟩ := by
    decide +kernel
  have hrun : Store.run ⟨[]⟩ tally = .ok () ⟨[("a", .ofInt 7), ("b", .ofInt 5), ("c", .one),
      ("e", .ofInt 7), ("f", .one), ("d", .ofRaw 12000)]⟩ := by decide +kernel
  obtain ⟨folded, hfold, hlength, hat⟩ := fold_closed hclosed hspell hrun hpow
  obtain ⟨u, v, hu, hv, hlast⟩ := hat (tally.take 6) "d" _ [] rfl
  rw [hbefore] at hu
  cases hu
  obtain rfl : Number.ofRaw 12000 = v := Except.ok.inj hv
  exact ⟨hclosed, hspell, hpowers, hpow, folded, hfold, hlength, hlast⟩

end Straightline.Target
