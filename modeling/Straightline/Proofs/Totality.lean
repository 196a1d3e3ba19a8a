import Straightline.Proofs.Dependencies
import Straightline.Proofs.Faults
import Straightline.Proofs.Folding

/-!
# Where folding and running end

Folding carries out operations on literals that nobody has run before.  A fault of the operands leaves
the operation as it stands, and a run reports it against the assignment.  The one fault that neither
expects is that of a power beyond the scale.  So folding fails exactly if it takes such a power:
`DecidedBy` says it of a step, carries over from one step to the next (`DecidedBy.bind`) and so to
expressions and programs.  A run, which may stop earlier at a fault of operands, fails otherwise only if
one of its powers is beyond the scale (`Store.run_cases`).
-/

namespace Straightline.Target

/-! ## Outcomes of operations -/

theorem isOfOperands_or_eq_unscalable (fault : Number.Fault) :
    fault.isOfOperands = true ∨ fault = .unscalable := by
  cases fault with
  | divisionByZero op => exact Or.inl rfl
  | undefined op operand => exact Or.inl rfl
  | unscalable => exact Or.inr rfl

/-- A result that is not unscalable is a number or a fault of the operands. -/
theorem Expr.eq_ok_or_fails {result : Except Number.Fault Number} (h : result ≠ .error .unscalable) :
    (∃ n, result = .ok n) ∨ Fails result := by
  cases result with
  | ok n => exact Or.inl ⟨n, rfl⟩
  | error fault =>
    refine Or.inr ⟨fault, rfl, (isOfOperands_or_eq_unscalable fault).resolve_right ?_⟩
    exact fun hfault => h (hfault ▸ rfl)

theorem Expr.exists_settle {result : Except Number.Fault Number} (h : result ≠ .error .unscalable)
    (unfolded : Expr) : ∃ d, settle unfolded result = .ok d := by
  rcases eq_ok_or_fails h with ⟨n, hn⟩ | hfails
  · exact ⟨_, settle_eq_ok_iff.mpr (Or.inl ⟨n, hn, rfl⟩)⟩
  · exact ⟨_, settle_eq_ok_iff.mpr (Or.inr ⟨hfails, rfl⟩)⟩

section

variable [Elementary] {bindings : Table Expr} {stmts : List Stmt} {s : Store}

/-! ## Powers met while folding -/

/-- The operands of an operation on folded operands, if it is a power of literals that no identity
applies to. -/
def powerOfLiterals (op : InfixOp) :
    Except FoldError Expr → Except FoldError Expr → List (Number × Number)
  | .ok (.literal a), .ok (.literal b) =>
    if op = .pow ∧ Expr.identity? (.literal a) op (.literal b) = none then [(a, b)] else []
  | _, _ => []

/-- The operands of the powers that are taken when an expression is folded. -/
def Expr.powersFolded (bindings : Table Expr) : Expr → List (Number × Number)
  | .unary _ e => e.powersFolded bindings
  | .binary l op r =>
    l.powersFolded bindings ++ (r.powersFolded bindings ++
      powerOfLiterals op (l.reduce bindings) (r.reduce bindings))
  | _ => []

/-- The operands of the powers that are taken when a program is folded. -/
def powersFolded (bindings : Table Expr) : List Stmt → List (Number × Number)
  | [] => []
  | .assign x e :: rest =>
    e.powersFolded bindings ++
      match e.reduce bindings with
      | .ok d => powersFolded (bindings.set x d) rest
      | .error _ => []
  | .stray _ :: _ => []

/-- **The powers are within the scale.** -/
def WithinScale (ps : List (Number × Number)) : Prop := ∀ a b, (a, b) ∈ ps → ¬ a.BeyondScale b

theorem withinScale_nil : WithinScale [] := fun _ _ h => absurd h List.not_mem_nil

theorem withinScale_singleton {a b : Number} : WithinScale [(a, b)] ↔ ¬ a.BeyondScale b := by
  constructor
  · exact fun h => h a b List.mem_cons_self
  · rintro h c d hcd
    obtain ⟨rfl, rfl⟩ := Prod.mk.inj (List.mem_singleton.mp hcd)
    exact h

theorem withinScale_append {ps qs : List (Number × Number)} :
    WithinScale (ps ++ qs) ↔ WithinScale ps ∧ WithinScale qs := by
  constructor
  · intro h
    exact ⟨fun a b hab => h a b (List.mem_append_left _ hab),
      fun a b hab => h a b (List.mem_append_right _ hab)⟩
  · rintro ⟨hp, hq⟩ a b hab
    rcases List.mem_append.mp hab with hab | hab
    · exact hp a b hab
    · exact hq a b hab

/-- **A step of folding that its powers decide**: it succeeds if they are within the scale, and else it is
unscalable. -/
structure DecidedBy {α : Type} (ps : List (Number × Number)) (step : Except FoldError α) : Prop where
  ok : WithinScale ps → ∃ a, step = .ok a
  unscalable : ¬ WithinScale ps → step = .error .unscalable

namespace DecidedBy

variable {α β : Type} {ps qs : List (Number × Number)}

theorem of_ok (a : α) : DecidedBy [] (.ok a) :=
  ⟨fun _ => ⟨a, rfl⟩, fun h => absurd withinScale_nil h⟩

theorem bind {step : Except FoldError α} {next : α → Except FoldError β} (hstep : DecidedBy ps step)
    (hnext : ∀ a, step = .ok a → DecidedBy qs (next a)) : DecidedBy (ps ++ qs) (step >>= next) := by
  constructor
  · intro h
    obtain ⟨hp, hq⟩ := withinScale_append.mp h
    obtain ⟨a, ha⟩ := hstep.ok hp
    obtain ⟨b, hb⟩ := (hnext a ha).ok hq
    exact ⟨b, bind_eq_ok.mpr ⟨a, ha, hb⟩⟩
  · intro h
    by_cases hp : WithinScale ps
    · obtain ⟨a, ha⟩ := hstep.ok hp
      have hq : ¬ WithinScale qs := fun hq => h (withinScale_append.mpr ⟨hp, hq⟩)
      exact bind_eq_error.mpr (Or.inr ⟨a, ha, (hnext a ha).unscalable hq⟩)
    · exact bind_eq_error.mpr (Or.inl (hstep.unscalable hp))

end DecidedBy

/-! ## Folding -/

theorem Expr.foldUnary_decided (h : ∀ (op : PrefixOp) a, op.apply a ≠ .error .unscalable)
    (op : PrefixOp) (e : Expr) : DecidedBy [] (foldUnary op e) := by
  have hok : ∃ d, foldUnary op e = .ok d := by
    unfold foldUnary
    split
    · exact exists_settle (h op _) _
    · exact ⟨_, rfl⟩
  obtain ⟨d, hd⟩ := hok
  exact hd ▸ .of_ok d

/-- An infix operation is folded, unless it is a power beyond the scale. -/
theorem Expr.foldBinary_decided (l : Expr) (op : InfixOp) (r : Expr) :
    DecidedBy (powerOfLiterals op (.ok l) (.ok r)) (foldBinary l op r) := by
  have hfold : identity? l op r = none → foldBinary l op r = foldLiterals l op r := by
    intro hnone
    rw [foldBinary, hnone]
  by_cases hpower : ∃ a b, l = .literal a ∧ r = .literal b ∧ op = .pow ∧ identity? l op r = none
  · obtain ⟨a, b, rfl, rfl, rfl, hnone⟩ := hpower
    have hps : powerOfLiterals .pow (.ok (.literal a)) (.ok (.literal b)) = [(a, b)] :=
      if_pos ⟨rfl, hnone⟩
    rw [hps, hfold hnone]
    change DecidedBy _ (settle _ (a.pow b))
    constructor
    · intro hwithin
      exact exists_settle (mt Number.pow_eq_unscalable_iff.mp (withinScale_singleton.mp hwithin)) _
    · intro hbeyond
      rw [withinScale_singleton, not_not] at hbeyond
      rw [Number.pow_eq_unscalable_iff.mpr hbeyond]
      rfl
  · have hps : powerOfLiterals op (.ok l) (.ok r) = [] := by
      unfold powerOfLiterals
      split
      · rename_i a b hl hr
        cases hl
        cases hr
        exact if_neg fun h => hpower ⟨a, b, rfl, rfl, h⟩
      · rfl
    have hok : ∃ d, foldBinary l op r = .ok d := by
      cases hidentity : identity? l op r with
      | some e => exact ⟨e, by rw [foldBinary, hidentity]⟩
      | none =>
        rw [hfold hidentity]
        unfold foldLiterals
        split
        · refine exists_settle (fun h => ?_) _
          exact hpower ⟨_, _, rfl, rfl, (InfixOp.apply_eq_unscalable_iff.mp h).1, hidentity⟩
        · exact ⟨_, rfl⟩
    obtain ⟨d, hd⟩ := hok
    rw [hps, hd]
    exact .of_ok d

/-- **Where folding an expression ends.** -/
theorem Expr.reduce_decided (h : ∀ (op : PrefixOp) a, op.apply a ≠ .error .unscalable)
    {e : Expr} (he : e.WellFormed) : DecidedBy (e.powersFolded bindings) (e.reduce bindings) := by
  induction e with
  | literal n => exact .of_ok _
  | ident x => exact .of_ok _
  | unary op e ih =>
    have hstep := (ih he).bind fun inner _ => foldUnary_decided h op inner
    rwa [List.append_nil] at hstep
  | binary l op r ihl ihr =>
    refine (ihl he.1).bind fun lhs hl => (ihr he.2).bind fun rhs hr => ?_
    rw [hl, hr]
    exact foldBinary_decided lhs op rhs
  | stray node => exact he.elim

/-- **Where folding a program ends.** -/
theorem foldFrom_decided (h : ∀ (op : PrefixOp) a, op.apply a ≠ .error .unscalable)
    (hstmts : ∀ stmt ∈ stmts, stmt.WellFormed) :
    DecidedBy (powersFolded bindings stmts) (foldFrom bindings stmts) := by
  induction stmts generalizing bindings with
  | nil => exact .of_ok _
  | cons stmt rest ih =>
    obtain ⟨hstmt, hrest⟩ := List.forall_mem_cons.mp hstmts
    cases stmt with
    | stray node => exact hstmt.elim
    | assign x e =>
      refine (Expr.reduce_decided h hstmt).bind fun d hd => ?_
      rw [hd]
      have hrest' : DecidedBy (powersFolded (bindings.set x d) rest) (foldFrom (bindings.set x d) rest) :=
        ih hrest
      have hstep := hrest'.bind fun rest' _ => DecidedBy.of_ok (Stmt.assign x d :: rest')
      rwa [List.append_nil] at hstep

/-! ## Running -/

/-- **Why an expression has no value**: a fault of operands, or a power beyond the scale. -/
theorem Store.eval_eq_error (h : ∀ (op : PrefixOp) a, op.apply a ≠ .error .unscalable)
    {e : Expr} (he : e.WellFormed) {error : EvalError} (herror : s.eval e = .error error) :
    ∃ fault, error = .number fault ∧
      (fault.isOfOperands ∨ fault = .unscalable ∧ ¬ WithinScale (s.powers e)) := by
  induction e generalizing error with
  | literal n => cases herror
  | ident x => cases herror
  | unary op e ih =>
    rcases bind_eq_error.mp herror with hinner | ⟨a, _, hop⟩
    · exact ih he hinner
    · obtain ⟨fault, hfault, rfl⟩ := mapError_eq_error.mp hop
      refine ⟨fault, rfl, Or.inl ((isOfOperands_or_eq_unscalable fault).resolve_right ?_)⟩
      rintro rfl
      exact h op a hfault
  | binary l op r ihl ihr =>
    change ∃ fault, error = .number fault ∧ (_ ∨ _ ∧
      ¬ WithinScale (s.powers l ++ s.powers r ++ powerOf op (s.eval l) (s.eval r)))
    rw [withinScale_append, withinScale_append]
    rcases bind_eq_error.mp herror with hl | ⟨a, ha, hright⟩
    · obtain ⟨fault, rfl, hfault⟩ := ihl he.1 hl
      exact ⟨fault, rfl, hfault.imp_right fun hf => ⟨hf.1, fun hwithin => hf.2 hwithin.1.1⟩⟩
    rcases bind_eq_error.mp hright with hr | ⟨b, hb, hop⟩
    · obtain ⟨fault, rfl, hfault⟩ := ihr he.2 hr
      exact ⟨fault, rfl, hfault.imp_right fun hf => ⟨hf.1, fun hwithin => hf.2 hwithin.1.2⟩⟩
    · obtain ⟨fault, hfault, rfl⟩ := mapError_eq_error.mp hop
      refine ⟨fault, rfl, (isOfOperands_or_eq_unscalable fault).imp_right ?_⟩
      rintro rfl
      obtain ⟨rfl, hbeyond⟩ := InfixOp.apply_eq_unscalable_iff.mp hfault
      refine ⟨rfl, fun hwithin => ?_⟩
      rw [ha, hb] at hwithin
      exact withinScale_singleton.mp hwithin.2 hbeyond
  | stray node => exact he.elim

/-- **How a program ends**: at its end, at an assignment with a fault of operands, or at a power beyond the
scale. -/
theorem Store.run_cases (h : ∀ (op : PrefixOp) a, op.apply a ≠ .error .unscalable)
    (hstmts : ∀ stmt ∈ stmts, stmt.WellFormed) (s : Store) :
    (∃ t, s.run stmts = .ok () t) ∨
      (∃ x fault t, s.run stmts = .error (.operands x fault) t) ∨
      ∃ t, s.run stmts = .error (.eval (.number .unscalable)) t ∧
        ¬ WithinScale (s.powersOfRun stmts) := by
  induction stmts generalizing s with
  | nil => exact Or.inl ⟨s, rfl⟩
  | cons stmt rest ih =>
    obtain ⟨hstmt, hrest⟩ := List.forall_mem_cons.mp hstmts
    cases stmt with
    | stray node => exact hstmt.elim
    | assign x e =>
      cases hv : s.eval e with
      | ok v =>
        rw [run_assign_of_ok hv, powersOfRun_assign hv, withinScale_append]
        refine (ih hrest (s.set x v)).imp_right (Or.imp_right ?_)
        rintro ⟨t, ht, hbeyond⟩
        exact ⟨t, ht, fun hwithin => hbeyond hwithin.2⟩
      | error error =>
        obtain ⟨fault, rfl, hfault⟩ := eval_eq_error h hstmt hv
        rw [run_assign_of_error hv]
        rcases hfault with hoperands | ⟨rfl, hbeyond⟩
        · exact Or.inr (Or.inl ⟨x, fault, s, by rw [EvalError.inAssignment, if_pos hoperands]⟩)
        · refine Or.inr (Or.inr ⟨s, rfl, fun hwithin => hbeyond ?_⟩)
          rw [powersOfRun, hv, List.append_nil] at hwithin
          exact hwithin

/-! ## Optimizing -/

theorem Expr.Settled.wellFormed {e : Expr} (h : e.Settled bindings) : e.WellFormed := by
  induction e with
  | literal n => trivial
  | ident x => trivial
  | unary op e ih => exact ih h.1
  | binary l op r ihl ihr => exact ⟨ihl h.1, ihr h.2.1⟩
  | stray node => exact h.elim

theorem Settled.wellFormed (h : Settled bindings stmts) : ∀ stmt ∈ stmts, stmt.WellFormed := by
  induction stmts generalizing bindings with
  | nil => exact fun stmt hstmt => absurd hstmt List.not_mem_nil
  | cons stmt rest ih =>
    cases stmt with
    | stray node => exact h.elim
    | assign x e => exact List.forall_mem_cons.mpr ⟨h.1.wellFormed, ih h.2⟩

/-- A program that can be folded can be optimized. -/
theorem exists_optimize {folded : List Stmt} (h : fold stmts = .ok folded) (roots : List String) :
    ∃ kept, optimize none roots stmts = .ok kept := by
  obtain ⟨g, hg⟩ : ∃ g, dependencies folded = .ok g :=
    exists_dependenciesFrom ⟨[]⟩ (foldFrom_settled h).wellFormed
  have hkept : dropDead roots folded = .ok (folded.filter (Stmt.assigns (g.search roots))) :=
    dropDead_eq_ok_iff.mpr ⟨g, hg, rfl⟩
  exact ⟨_, bind_eq_ok.mpr ⟨folded, foldToFixpoint_none h, mapError_eq_ok.mpr hkept⟩⟩

/-- **Where folding and running end.**  Every operation yields a number or a fault of its operands, unless
it is a power beyond the scale; infinite results saturate.  So a well-formed program that takes no such
power while it is folded can be folded and optimized, and what is left are operations that fail; with such
a power it cannot be folded.  A run ends at the end, with a fault of operands, or at such a power. -/
theorem fold_total (hmoderate : Elementary.Moderate) (hdegrees : Elementary.BoundedDegrees)
    (hstmts : ∀ stmt ∈ stmts, stmt.WellFormed) :
    (∀ (op : PrefixOp) a, (∃ n, op.apply a = .ok n) ∨ Expr.Fails (op.apply a)) ∧
      (∀ (op : InfixOp) a b, (∃ n, op.apply a b = .ok n) ∨ Expr.Fails (op.apply a b) ∨
        op = .pow ∧ a.BeyondScale b) ∧
      (∀ operator x, x.isInf →
        Number.ofFloat operator x = .ok (if x > 0.0 then .greatest else .least)) ∧
      (WithinScale (powersFolded [] stmts) →
        (∃ folded, fold stmts = .ok folded ∧ Settled [] folded) ∧
          ∀ roots, ∃ kept, optimize none roots stmts = .ok kept) ∧
      (¬ WithinScale (powersFolded [] stmts) → fold stmts = .error .unscalable) ∧
      ∀ s : Store, (∃ t, s.run stmts = .ok () t) ∨
        (∃ x fault t, s.run stmts = .error (.operands x fault) t) ∨
        ∃ t, s.run stmts = .error (.eval (.number .unscalable)) t ∧
          ¬ WithinScale (s.powersOfRun stmts) := by
  have hscaled := PrefixOp.apply_ne_unscalable hmoderate hdegrees
  have hdecided : DecidedBy (powersFolded [] stmts) (fold stmts) := foldFrom_decided hscaled hstmts
  refine ⟨?_, ?_, ?_, ?_, hdecided.unscalable, Store.run_cases hscaled hstmts⟩
  · exact fun op a => Expr.eq_ok_or_fails (hscaled op a)
  · intro op a b
    by_cases hbeyond : op.apply a b = .error .unscalable
    · exact Or.inr (Or.inr (InfixOp.apply_eq_unscalable_iff.mp hbeyond))
    · exact (Expr.eq_ok_or_fails hbeyond).imp_right Or.inl
  · exact fun operator x hx => Number.ofFloat_of_isInf hx
  · intro hwithin
    obtain ⟨folded, hfolded⟩ := hdecided.ok hwithin
    exact ⟨⟨folded, hfolded, foldFrom_settled hfolded⟩, exists_optimize hfolded⟩

end

/-- A program with an infinite power, a division by zero and a moderate power:
`a=10^309 b=1/0-a c=2^10`. -/
def steep : List Stmt :=
  [.assign "a" (.binary (.literal (.ofInt 10)) .pow (.literal (.ofInt 309))),
    .assign "b" (.binary (.binary (.literal .one) .div (.literal .zero)) .sub (.ident "a")),
    .assign "c" (.binary (.literal (.ofInt 2)) .pow (.literal (.ofInt 10)))]

/-- It can be folded. -/
theorem fold_total_steep :
    @Elementary.Moderate .ofPlainValues ∧ @Elementary.BoundedDegrees .ofPlainValues ∧
      (∀ stmt ∈ steep, stmt.WellFormed) ∧
      @WithinScale .ofPlainValues (@powersFolded .ofPlainValues [] steep) ∧
      ∃ folded, @fold .ofPlainValues steep = .ok folded ∧ @Settled .ofPlainValues [] folded := by
  have hwf : ∀ stmt ∈ steep, stmt.WellFormed := by
    simp [steep, Stmt.WellFormed, Expr.WellFormed]
  have hpowers : @powersFolded .ofPlainValues [] steep =
      [(.ofInt 10, .ofInt 309), (.ofInt 2, .ofInt 10)] := by decide +kernel
  have hwithin : @WithinScale .ofPlainValues (@powersFolded .ofPlainValues [] steep) := by
    have hpow : ∀ p ∈ [(Number.ofInt 10, .ofInt 309), (.ofInt 2, .ofInt 10)],
        @Number.pow .ofPlainValues p.1 p.2 ≠ .error .unscalable := by decide +kernel
    rw [hpowers]
    intro a b hab
    exact mt (@Number.pow_eq_unscalable_iff .ofPlainValues a b).mpr (hpow (a, b) hab)
  have htotal := @fold_total .ofPlainValues steep Elementary.moderate_ofPlainValues
    Elementary.boundedDegrees_ofPlainValues hwf
  exact ⟨Elementary.moderate_ofPlainValues, Elementary.boundedDegrees_ofPlainValues, hwf, hwithin,
    (htotal.2.2.2.1 hwithin).1⟩

/-- `x=10^305`. -/
def beyond : List Stmt := [.assign "x" (.binary (.literal (.ofInt 10)) .pow (.literal (.ofInt 305)))]

/-- **A power beyond the scale** stops folding and running, although its double is finite. -/
theorem fold_beyond :
    @Elementary.Moderate .ofPlainValues ∧ @Elementary.BoundedDegrees .ofPlainValues ∧
      (∀ stmt ∈ beyond, stmt.WellFormed) ∧
      @fold .ofPlainValues beyond = .error .unscalable ∧
      @Store.run .ofPlainValues ⟨[]⟩ beyond = .error (.eval (.number .unscalable)) ⟨[]⟩ := by
  have heval : @Store.eval .ofPlainValues ⟨[]⟩
      (.binary (.literal (.ofInt 10)) .pow (.literal (.ofInt 305))) = .error (.number .unscalable) := by
    decide +kernel
  refine ⟨Elementary.moderate_ofPlainValues, Elementary.boundedDegrees_ofPlainValues, ?_,
    by decide +kernel, ?_⟩
  · simp [beyond, Stmt.WellFormed, Expr.WellFormed]
  · exact @Store.run_assign_of_error .ofPlainValues _ _ _ _ heval []

end Straightline.Target
