import Straightline.Proofs.Conversion
import Straightline.Proofs.Settling

/-!
# How operations fail

Every operation yields a number or a fault of its operands, with one exception: a power whose double is
finite, but cannot be scaled to raw units (`BeyondScale`).  Infinite results saturate.  Of the functions
of angles it is assumed that their finite values are moderate, as they are wherever angles are doubles
(`Elementary.Moderate`), and that degrees are not many times more than radians
(`Elementary.BoundedDegrees`); of powers nothing is assumed.
-/

namespace Straightline

open Binary64

/-! ## Angles -/

namespace Elementary

/-- **The functions of angles are moderate**: no finite value of theirs exceeds `2 ^ 64`.  All but the
tangent are small, and no double lies so near to a pole of the tangent. -/
def Moderate [Elementary] : Prop :=
  ∀ f ∈ [sin, cos, tan, asin, acos, atan], ∀ x v, decode? (f x) = some v → v.magnitude ≤ 2 ^ 64

/-- **Degrees are bounded by radians**: no finite angle in degrees exceeds `2 ^ 72`, unless it is one that
exceeds `2 ^ 64` in radians. -/
def BoundedDegrees [Elementary] : Prop :=
  ∀ x, (∀ v, decode? x = some v → v.magnitude ≤ 2 ^ 64) →
    ∀ w, decode? (degrees x) = some w → w.magnitude ≤ 2 ^ 72

theorem magnitude_le_of_plain : ∀ c ∈ [(0.0 : Float), 1.0, 0.0 / 0.0], ∀ v, decode? c = some v →
    v.magnitude ≤ 2 ^ 64 := by
  have hzero : decode? 0.0 = some ⟨false, 0, -1074⟩ := by decide +kernel
  have hone : decode? 1.0 = some ⟨false, 2 ^ 52, -52⟩ := by decide +kernel
  have hnan : decode? (0.0 / 0.0) = none := by decide +kernel
  simp only [List.forall_mem_cons, hzero, hone, hnan, Option.some.injEq]
  refine ⟨?_, ?_, by rintro v ⟨⟩, by rintro _ ⟨⟩⟩
  · rintro v rfl
    norm_num [Finite.magnitude]
  · rintro v rfl
    norm_num [Finite.magnitude]

theorem branch_plain (p : Prop) [Decidable p] {c : Float} (hc : c ∈ [(0.0 : Float), 1.0]) :
    (if p then c else 0.0 / 0.0) ∈ [(0.0 : Float), 1.0, 0.0 / 0.0] := by
  split
  · exact List.mem_append_left [0.0 / 0.0] hc
  · simp

theorem moderate_ofPlainValues : @Moderate ofPlainValues := by
  intro f hf x v hv
  refine magnitude_le_of_plain (f x) ?_ v hv
  simp only [List.mem_cons, List.not_mem_nil, or_false] at hf
  rcases hf with rfl | rfl | rfl | rfl | rfl | rfl
  · exact branch_plain (x = 0.0) (by simp)
  · exact branch_plain (x = 0.0) (by simp)
  · exact branch_plain (x = 0.0) (by simp)
  · exact branch_plain (x = 0.0) (by simp)
  · exact branch_plain (x = 1.0) (by simp)
  · exact branch_plain (x = 0.0) (by simp)

theorem boundedDegrees_ofPlainValues : @BoundedDegrees ofPlainValues := by
  intro x _ w hw
  have hplain := magnitude_le_of_plain _ (branch_plain (x = 0.0) (by simp)) w hw
  exact hplain.trans (by norm_num)

/-- **The machine turns radians into degrees by one product**, and so its degrees are bounded. -/
theorem boundedDegrees_ofMachine : @BoundedDegrees ofMachine := by
  intro x h w hw
  have hfactor : decode? 57.29577951308232 = some ⟨false, 8063664102031864, -47⟩ := by decide +kernel
  obtain ⟨v, hv⟩ := decode?_of_mul hw
  have hle : Finite.magnitude ⟨false, 8063664102031864, -47⟩ ≤ 2 ^ 6 := by norm_num [Finite.magnitude]
  have hnonneg : 0 ≤ Finite.magnitude ⟨false, 8063664102031864, -47⟩ := by norm_num [Finite.magnitude]
  have hproduct : v.magnitude * Finite.magnitude ⟨false, 8063664102031864, -47⟩ ≤ 2 ^ 70 := by
    calc _ ≤ (2 : ℚ) ^ 64 * 2 ^ 6 := mul_le_mul (h v hv) hle hnonneg (by norm_num)
      _ = 2 ^ 70 := by norm_num
  obtain ⟨w', hw', _, hnear⟩ := (rounded_mul hv hfactor).near 71 (by norm_num)
    (by norm_num) (hproduct.trans_lt (by norm_num))
  obtain rfl : w = w' := Option.some.inj (hw.symm.trans hw')
  have := (abs_le.mp hnear).2
  norm_num at this hproduct ⊢
  linarith

end Elementary

namespace Number

variable {x : Float} {operator : String}

/-- A double of moderate size can be scaled. -/
theorem ofFloat_ne_unscalable_of_le (h : ∀ v, decode? x = some v → v.magnitude ≤ 2 ^ 72) :
    ofFloat operator x ≠ .error .unscalable := by
  rw [ne_eq, ofFloat_eq_unscalable_iff]
  rintro ⟨v, hv, hle⟩
  have hpow : (2 : ℚ) ^ (100 : ℤ) ≤ 2 ^ (971 : ℤ) :=
    zpow_le_zpow_right₀ (by norm_num) (by norm_num)
  have hmagnitude := h v hv
  unfold overflowBound at hle
  generalize (2 : ℚ) ^ (971 : ℤ) = b at hpow hle
  norm_num at hpow
  linarith

variable [Elementary]

/-- **A power beyond the scale**: the operands have a power, and as a double it is finite, but it cannot
be scaled to raw units. -/
def BeyondScale (a b : Number) : Prop :=
  ¬ (a.raw = 0 ∧ b.raw ≤ 0) ∧ ¬ (a.raw < 0 ∧ b.raw % scale ≠ 0) ∧
    Unscalable (Elementary.pow a.toFloat b.toFloat)

theorem pow_eq_unscalable_iff {a b : Number} : a.pow b = .error .unscalable ↔ a.BeyondScale b := by
  unfold pow BeyondScale
  by_cases hzero : a.raw = 0 ∧ b.raw = 0
  · rw [if_pos hzero]
    exact iff_of_false (by rintro ⟨⟩) fun h => h.1 ⟨hzero.1, hzero.2.le⟩
  rw [if_neg hzero]
  by_cases hinverse : a.raw = 0 ∧ b.raw < 0
  · rw [if_pos hinverse]
    exact iff_of_false (by rintro ⟨⟩) fun h => h.1 ⟨hinverse.1, hinverse.2.le⟩
  rw [if_neg hinverse]
  by_cases hroot : a.raw < 0 ∧ b.raw % scale ≠ 0
  · rw [if_pos hroot]
    exact iff_of_false (by rintro ⟨⟩) fun h => h.2.1 hroot
  · rw [if_neg hroot, ofFloat_eq_unscalable_iff]
    exact ⟨fun h => ⟨by omega, hroot, h⟩, fun h => h.2.2⟩

end Number

/-! ## The operators -/

section

variable [Elementary] {a b : Number}

/-- A prefix operation yields a number or a fault of its operand. -/
theorem PrefixOp.apply_ne_unscalable (h : Elementary.Moderate) (hdegrees : Elementary.BoundedDegrees)
    (op : PrefixOp) (a : Number) : op.apply a ≠ .error .unscalable := by
  have hvalue : ∀ f ∈ [Elementary.sin, Elementary.cos, Elementary.tan], ∀ x operator,
      Number.ofFloat operator (f x) ≠ .error .unscalable := by
    intro f hf x operator
    refine Number.ofFloat_ne_unscalable_of_le fun v hv => ?_
    exact (h f (List.mem_append_left [Elementary.asin, Elementary.acos, Elementary.atan] hf) x v hv).trans
      (by norm_num)
  have hangle : ∀ f ∈ [Elementary.asin, Elementary.acos, Elementary.atan], ∀ x operator,
      Number.ofFloat operator (Elementary.degrees (f x)) ≠ .error .unscalable := by
    intro f hf x operator
    refine Number.ofFloat_ne_unscalable_of_le (hdegrees (f x) ?_)
    exact h f (List.mem_append_right [Elementary.sin, Elementary.cos, Elementary.tan] hf) x
  cases op with
  | neg => rintro ⟨⟩
  | not => rintro ⟨⟩
  | abs => rintro ⟨⟩
  | sqrt =>
    change a.sqrt ≠ _
    unfold Number.sqrt
    split <;> rintro ⟨⟩
  | sin => exact hvalue _ (by simp) _ _
  | cos => exact hvalue _ (by simp) _ _
  | tan =>
    intro htan
    rcases bind_eq_error.mp htan with hcos | ⟨c, _, hquotient⟩
    · exact hvalue _ (by simp) _ _ hcos
    · split at hquotient
      · cases hquotient
      · exact hvalue _ (by simp) _ _ hquotient
  | asin =>
    change a.asin ≠ _
    unfold Number.asin
    split
    · rintro ⟨⟩
    · exact hangle _ (by simp) _ _
  | acos =>
    change a.acos ≠ _
    unfold Number.acos
    split
    · rintro ⟨⟩
    · exact hangle _ (by simp) _ _
  | atan => exact hangle _ (by simp) _ _

/-- An infix operation yields a number or a fault of its operands, unless it is a power beyond the
scale. -/
theorem InfixOp.apply_eq_unscalable_iff {op : InfixOp} :
    op.apply a b = .error .unscalable ↔ op = .pow ∧ a.BeyondScale b := by
  cases op with
  | pow => simpa [apply] using Number.pow_eq_unscalable_iff
  | div =>
    change a.div b = _ ↔ _
    unfold Number.div
    split <;> simp
  | mod =>
    change a.mod b = _ ↔ _
    unfold Number.mod
    split <;> simp
  | _ => simp [apply]

end

end Straightline
