import Straightline.Proofs.Arithmetic
import Straightline.Proofs.Running
import Straightline.Proofs.Settling
import Straightline.Target.Folding

/-!
# Folding preserves meaning

If a program runs to its end, then so does the folded one, and to the same store.  The bindings that a
sweep carries along are true of the store at each assignment (`Agrees`): a variable bound to a literal
holds it.  So an operation that is carried out while folding is one that the run carries out too, on
the same operands, and since the run succeeds it cannot fail.

One rule needs an assumption.  Powers are computed in doubles, and whether `1^n` is `1` and `n^1` is
`n` is up to the machine.  `NeutralAt` asks for it at the operands that the run meets and nowhere else
(`Store.powers`, `Store.powersOfRun`); a folded program meets no others.
-/

namespace Straightline.Target

variable [Elementary] {s t : Store}

/-! ## Powers met in a run -/

omit [Elementary] in
/-- The operands of an operation, if it is a power and both have values. -/
def powerOf : InfixOp → Except EvalError Number → Except EvalError Number → List (Number × Number)
  | .pow, .ok a, .ok b => [(a, b)]
  | _, _, _ => []

/-- The operands of the powers that are taken when an expression is evaluated. -/
def Store.powers (s : Store) : Expr → List (Number × Number)
  | .unary _ e => s.powers e
  | .binary l op r => s.powers l ++ s.powers r ++ powerOf op (s.eval l) (s.eval r)
  | _ => []

/-- The operands of the powers that are taken when a program runs. -/
def Store.powersOfRun (s : Store) : List Stmt → List (Number × Number)
  | [] => []
  | .assign x e :: rest =>
    s.powers e ++
      match s.eval e with
      | .ok v => (s.set x v).powersOfRun rest
      | .error _ => []
  | .stray _ :: _ => []

/-- **One is neutral** as the base and as the exponent of the given powers. -/
def NeutralAt (ps : List (Number × Number)) : Prop :=
  ∀ a b, (a, b) ∈ ps → (a = .one → a.pow b = .ok .one) ∧ (b = .one → a.pow b = .ok a)

theorem NeutralAt.mono {ps qs : List (Number × Number)} (h : NeutralAt ps) (hsub : qs ⊆ ps) :
    NeutralAt qs :=
  fun a b hab => h a b (hsub hab)

theorem Store.powersOfRun_assign {x : String} {e : Expr} {v : Number} (h : s.eval e = .ok v)
    (rest : List Stmt) :
    s.powersOfRun (.assign x e :: rest) = s.powers e ++ (s.set x v).powersOfRun rest := by
  rw [powersOfRun, h]

/-! ## Expressions -/

/-- **An expression that can stand for another** in a store: it has the given value, takes no other
powers and reads no other variables. -/
structure StandsFor (s : Store) (e e' : Expr) (v : Number) : Prop where
  eval : s.eval e' = .ok v
  powers : s.powers e' ⊆ s.powers e
  idents : e'.idents ⊆ e.idents

theorem StandsFor.literal (e : Expr) (v : Number) : StandsFor s e (.literal v) v :=
  ⟨rfl, List.nil_subset _, List.nil_subset _⟩

omit [Elementary] in
theorem Expr.eq_of_isLiteral {e : Expr} {n : Number} (h : e.isLiteral n = true) : e = .literal n :=
  of_decide_eq_true h

/-- The algebraic identities hold of values, and never bring in anything new. -/
theorem Expr.identity?_sound {l r e : Expr} {op : InfixOp} {a b v : Number}
    (h : identity? l op r = some e) (hl : s.eval l = .ok a) (hr : s.eval r = .ok b)
    (hv : op.apply a b = .ok v) (hpow : op = .pow → NeutralAt [(a, b)]) :
    s.eval e = .ok v ∧ (e = l ∨ e = r ∨ ∃ n, e = .literal n) := by
  have hleft : ∀ n, l.isLiteral n = true → a = n := by
    intro n hn
    rw [eq_of_isLiteral hn] at hl
    exact (Except.ok.inj hl).symm
  have hright : ∀ n, r.isLiteral n = true → b = n := by
    intro n hn
    rw [eq_of_isLiteral hn] at hr
    exact (Except.ok.inj hr).symm
  have hvalue : ∀ w : Number, op.apply a b = .ok w → w = v := by
    intro w hw
    rw [hw] at hv
    exact Except.ok.inj hv
  unfold identity? at h
  split at h
  · -- sums
    split at h
    · obtain rfl := Option.some.inj h
      obtain rfl := hleft _ ‹_›
      exact ⟨hr.trans (congrArg _ (hvalue b (by simp [InfixOp.apply]))), Or.inr (Or.inl rfl)⟩
    split at h
    · obtain rfl := Option.some.inj h
      obtain rfl := hright _ ‹_›
      exact ⟨hl.trans (congrArg _ (hvalue a (by simp [InfixOp.apply]))), Or.inl rfl⟩
    · cases h
  · -- differences
    split at h
    · obtain rfl := Option.some.inj h
      obtain rfl := hright _ ‹_›
      exact ⟨hl.trans (congrArg _ (hvalue a (by simp [InfixOp.apply]))), Or.inl rfl⟩
    · cases h
  · -- products
    split at h
    · rename_i hz
      obtain rfl := Option.some.inj h
      refine ⟨congrArg Except.ok (hvalue .zero ?_), Or.inr (Or.inr ⟨_, rfl⟩)⟩
      rcases Bool.or_eq_true_iff.mp hz with hz | hz
      · simp [InfixOp.apply, hleft _ hz]
      · simp [InfixOp.apply, hright _ hz]
    split at h
    · obtain rfl := Option.some.inj h
      obtain rfl := hleft _ ‹_›
      exact ⟨hr.trans (congrArg _ (hvalue b (by simp [InfixOp.apply]))), Or.inr (Or.inl rfl)⟩
    split at h
    · obtain rfl := Option.some.inj h
      obtain rfl := hright _ ‹_›
      exact ⟨hl.trans (congrArg _ (hvalue a (by simp [InfixOp.apply]))), Or.inl rfl⟩
    · cases h
  · -- quotients
    split at h
    · obtain rfl := Option.some.inj h
      obtain rfl := hright _ ‹_›
      exact ⟨hl.trans (congrArg _ (hvalue a (by simp [InfixOp.apply]))), Or.inl rfl⟩
    · cases h
  · -- powers, where neutrality is an assumption
    have hneutral := hpow rfl a b List.mem_cons_self
    split at h
    · obtain rfl := Option.some.inj h
      refine ⟨congrArg Except.ok (hvalue .one ?_), Or.inr (Or.inr ⟨_, rfl⟩)⟩
      exact hneutral.1 (hleft _ ‹_›)
    split at h
    · obtain rfl := Option.some.inj h
      exact ⟨hl.trans (congrArg _ (hvalue a (hneutral.2 (hright _ ‹_›)))), Or.inl rfl⟩
    · cases h
  · cases h

omit [Elementary] in
theorem Expr.settle_eq_ok {unfolded : Expr} {r : Except Number.Fault Number} {v : Number}
    (h : r = .ok v) : settle unfolded r = .ok (.literal v) := by
  rw [h, settle]

theorem Expr.foldUnary_sound {op : PrefixOp} {e e' : Expr} {a v : Number}
    (he : StandsFor s e e' a) (hv : op.apply a = .ok v) :
    ∃ d, foldUnary op e' = .ok d ∧ StandsFor s (.unary op e) d v := by
  have hkeep : StandsFor s (.unary op e) (.unary op e') v :=
    ⟨Store.eval_unary_eq_ok.mpr ⟨a, he.eval, hv⟩, he.powers, he.idents⟩
  unfold foldUnary
  split
  · rename_i n
    obtain rfl : n = a := Except.ok.inj he.eval
    exact ⟨_, settle_eq_ok hv, .literal _ v⟩
  · exact ⟨_, rfl, hkeep⟩

theorem Expr.foldBinary_sound {op : InfixOp} {l l' r r' : Expr} {a b v : Number}
    (hla : s.eval l = .ok a) (hrb : s.eval r = .ok b) (hl : StandsFor s l l' a)
    (hr : StandsFor s r r' b) (hv : op.apply a b = .ok v)
    (hpow : NeutralAt (s.powers (.binary l op r))) :
    ∃ d, foldBinary l' op r' = .ok d ∧ StandsFor s (.binary l op r) d v := by
  have hpowers : s.powers (.binary l op r)
      = s.powers l ++ s.powers r ++ powerOf op (.ok a) (.ok b) := by
    rw [Store.powers, hla, hrb]
  have hpl : s.powers l' ⊆ s.powers (.binary l op r) := by
    rw [hpowers, List.append_assoc]
    exact List.subset_append_of_subset_left _ hl.powers
  have hpr : s.powers r' ⊆ s.powers (.binary l op r) := by
    rw [hpowers, List.append_assoc]
    exact List.subset_append_of_subset_right _ (List.subset_append_of_subset_left _ hr.powers)
  have hil : l'.idents ⊆ (Expr.binary l op r).idents :=
    List.subset_append_of_subset_left _ hl.idents
  have hir : r'.idents ⊆ (Expr.binary l op r).idents :=
    List.subset_append_of_subset_right _ hr.idents
  unfold foldBinary
  split
  · rename_i d hd
    have hneutral : op = .pow → NeutralAt [(a, b)] := by
      rintro rfl
      refine hpow.mono ?_
      rw [hpowers]
      exact List.subset_append_right _ _
    obtain ⟨hval, hform⟩ := identity?_sound hd hl.eval hr.eval hv hneutral
    refine ⟨d, rfl, ?_⟩
    rcases hform with rfl | rfl | ⟨n, rfl⟩
    · exact ⟨hval, hpl, hil⟩
    · exact ⟨hval, hpr, hir⟩
    · obtain rfl : n = v := Except.ok.inj hval
      exact .literal _ n
  · have hkeep : StandsFor s (.binary l op r) (.binary l' op r') v := by
      refine ⟨Store.eval_binary_eq_ok.mpr ⟨a, b, hl.eval, hr.eval, hv⟩, ?_, ?_⟩
      · refine List.append_subset.mpr ⟨List.append_subset.mpr ⟨hpl, hpr⟩, ?_⟩
        rw [hl.eval, hr.eval, hpowers]
        exact List.subset_append_right _ _
      · exact List.append_subset.mpr ⟨hil, hir⟩
    unfold foldLiterals
    split
    · rename_i m n _
      obtain rfl : m = a := Except.ok.inj hl.eval
      obtain rfl : n = b := Except.ok.inj hr.eval
      exact ⟨_, settle_eq_ok hv, .literal _ v⟩
    · exact ⟨_, rfl, hkeep⟩

/-- **Bindings that are true of a store**: a variable bound to a literal holds it. -/
def Agrees (bindings : Table Expr) (s : Store) : Prop :=
  ∀ x n, bindings.get? x = some (.literal n) → s.get x = n

/-- **Folding an expression that has a value** succeeds, and the result can stand for it. -/
theorem Expr.reduce_sound {bindings : Table Expr} (hb : Agrees bindings s) {e : Expr} {v : Number}
    (hv : s.eval e = .ok v) (hpow : NeutralAt (s.powers e)) :
    ∃ d, e.reduce bindings = .ok d ∧ StandsFor s e d v := by
  induction e generalizing v with
  | literal n => exact ⟨_, rfl, hv, List.Subset.refl _, List.Subset.refl _⟩
  | ident x =>
    refine ⟨_, rfl, ?_⟩
    unfold resolve
    split
    · rename_i n hn
      obtain rfl : n = v := (hb x n hn).symm.trans (Except.ok.inj hv)
      exact .literal _ n
    · exact ⟨hv, List.Subset.refl _, List.Subset.refl _⟩
  | unary op e ih =>
    obtain ⟨a, ha, hv⟩ := Store.eval_unary_eq_ok.mp hv
    obtain ⟨e', he', hstands⟩ := ih ha hpow
    obtain ⟨d, hd, hstands⟩ := foldUnary_sound hstands hv
    refine ⟨d, ?_, hstands⟩
    rw [reduce, he']
    exact hd
  | binary l op r ihl ihr =>
    obtain ⟨a, b, ha, hb', hv⟩ := Store.eval_binary_eq_ok.mp hv
    have hpl : s.powers l ⊆ s.powers (.binary l op r) :=
      fun p hp => List.mem_append_left _ (List.mem_append_left _ hp)
    have hpr : s.powers r ⊆ s.powers (.binary l op r) :=
      fun p hp => List.mem_append_left _ (List.mem_append_right _ hp)
    obtain ⟨l', hl', hleft⟩ := ihl ha (hpow.mono hpl)
    obtain ⟨r', hr', hright⟩ := ihr hb' (hpow.mono hpr)
    obtain ⟨d, hd, hstands⟩ := foldBinary_sound ha hb' hleft hright hv hpow
    refine ⟨d, ?_, hstands⟩
    rw [reduce, hl', hr']
    exact hd
  | stray node => cases hv

/-! ## Programs -/

/-- **Names that are spelled alike** wherever they are the same variable to the target language. -/
def SpelledAlike (names : List String) : Prop :=
  ∀ x ∈ names, ∀ y ∈ names, Text.lower x = Text.lower y → x = y

/-- What a folded program has in common with the program it was made from: it runs to the same store,
takes no other powers and reads no other variables. -/
structure RunsAlike (s : Store) (stmts folded : List Stmt) (t : Store) : Prop where
  run : s.run folded = .ok () t
  powers : s.powersOfRun folded ⊆ s.powersOfRun stmts
  idents : idents folded ⊆ idents stmts

omit [Elementary] in
/-- Binding a name of a list leaves all bound names in it. -/
theorem mem_names_of_get?_set {bindings : Table Expr} {names : List String} {x : String} {e : Expr}
    (hnames : ∀ y d, bindings.get? y = some d → y ∈ names) (hx : x ∈ names) :
    ∀ y d, (bindings.set x e).get? y = some d → y ∈ names := by
  intro y d hy
  by_cases hyx : y = x
  · exact hyx ▸ hx
  · rw [Table.get?_set_of_ne _ _ hyx] at hy
    exact hnames y d hy

theorem Agrees.set {bindings : Table Expr} {names : List String} {x : String} {e : Expr} {v : Number}
    (hb : Agrees bindings s) (hnames : ∀ y e', bindings.get? y = some e' → y ∈ names)
    (hspell : SpelledAlike names) (hx : x ∈ names) (he : s.eval e = .ok v) :
    Agrees (bindings.set x e) (s.set x v) := by
  intro y n hy
  by_cases hyx : y = x
  · subst hyx
    rw [Table.get?_set_self] at hy
    rw [Option.some.inj hy] at he
    rw [Store.get_set_self]
    exact (Except.ok.inj he).symm
  · rw [Table.get?_set_of_ne _ _ hyx] at hy
    have hlower : Text.lower y ≠ Text.lower x :=
      fun h => hyx (hspell y (hnames y _ hy) x hx h)
    rw [Store.get_set_of_lower_ne _ _ hlower]
    exact hb y n hy

/-- A sweep from true bindings: the invariant is that they stay true after each assignment. -/
theorem foldFrom_sound {names : List String} (hspell : SpelledAlike names) {bindings : Table Expr}
    {stmts : List Stmt} (hb : Agrees bindings s)
    (hnames : ∀ y e', bindings.get? y = some e' → y ∈ names) (hsub : idents stmts ⊆ names)
    (hrun : s.run stmts = .ok () t) (hpow : NeutralAt (s.powersOfRun stmts)) :
    ∃ folded, foldFrom bindings stmts = .ok folded ∧ RunsAlike s stmts folded t := by
  induction stmts generalizing s bindings with
  | nil => exact ⟨[], rfl, hrun, List.Subset.refl _, List.Subset.refl _⟩
  | cons stmt rest ih =>
    cases stmt with
    | stray node => cases hrun
    | assign x e =>
      obtain ⟨v, hv, hrun⟩ := Store.run_assign_eq_ok.mp hrun
      rw [Store.powersOfRun_assign hv] at hpow
      obtain ⟨e', he', hstands⟩ := Expr.reduce_sound hb hv (hpow.mono (List.subset_append_left _ _))
      have hx : x ∈ names := hsub List.mem_cons_self
      have hrest : idents rest ⊆ names := fun y hy =>
        hsub (List.mem_cons_of_mem _ (List.mem_append_right _ hy))
      obtain ⟨folded, hfolded, halike⟩ := ih (hb.set hnames hspell hx hstands.eval)
        (mem_names_of_get?_set hnames hx) hrest hrun (hpow.mono (List.subset_append_right _ _))
      refine ⟨.assign x e' :: folded, ?_, ?_, ?_, ?_⟩
      · simp only [foldFrom, he', bind, Except.bind, hfolded]
        rfl
      · rw [Store.run_assign_of_ok hstands.eval]
        exact halike.run
      · rw [Store.powersOfRun_assign hstands.eval, Store.powersOfRun_assign hv]
        exact List.append_subset.mpr ⟨List.subset_append_of_subset_left _ hstands.powers,
          List.subset_append_of_subset_right _ halike.powers⟩
      · refine List.cons_subset_cons x (List.append_subset.mpr ⟨?_, ?_⟩)
        · exact List.subset_append_of_subset_left _ hstands.idents
        · exact List.subset_append_of_subset_right _ halike.idents

theorem fold_sound {names : List String} (hspell : SpelledAlike names) {stmts : List Stmt}
    (hsub : idents stmts ⊆ names) (hrun : s.run stmts = .ok () t)
    (hpow : NeutralAt (s.powersOfRun stmts)) :
    ∃ folded, fold stmts = .ok folded ∧ RunsAlike s stmts folded t := by
  have hb : Agrees [] s := fun x n h => by cases h
  have hnames : ∀ y e', Table.get? ([] : Table Expr) y = some e' → y ∈ names :=
    fun y e' h => by cases h
  exact foldFrom_sound hspell hb hnames hsub hrun hpow

/-- **Folding to a fixpoint** succeeds on a program that runs to its end, and the result runs to the
same store. -/
theorem foldToFixpoint_sound {names : List String} (hspell : SpelledAlike names) {stmts : List Stmt}
    (hsub : idents stmts ⊆ names) (hrun : s.run stmts = .ok () t)
    (hpow : NeutralAt (s.powersOfRun stmts)) :
    ∃ folded, foldToFixpoint none stmts = .ok folded ∧ RunsAlike s stmts folded t := by
  obtain ⟨folded, hfolded, halike⟩ := fold_sound hspell hsub hrun hpow
  exact ⟨folded, foldToFixpoint_none hfolded, halike⟩

end Straightline.Target
