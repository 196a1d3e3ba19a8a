import Mathlib.Algebra.Order.Field.Rat
import Mathlib.Data.Rat.Floor
import Mathlib.Data.Sign.Basic
import Mathlib.Tactic.FieldSimp
import Mathlib.Tactic.Ring
import Straightline.Proofs.Arithmetic

/-!
# Arithmetic in rational numbers

A number stands for the rational number `value`.  Sums, differences, products and quotients are the exact
rational results, brought to raw units by one truncation toward zero and one saturation (`unitsOf`).
Remainders are exact: they are as near to zero as their operands allow, so nothing is left to truncate or
to saturate.

All of it rests on one fact, `truncate_div`: integer division that drops the fraction is truncation of the
rational quotient, whatever the signs.
-/

namespace Straightline.Number

/-! ## Truncation and saturation -/

/-- **A rational number without its fraction**: rounded down if it is positive, and up if it is negative. -/
def truncate (q : ℚ) : ℤ := if 0 ≤ q then ⌊q⌋ else ⌈q⌉

/-- The raw value nearest to `n`. -/
def saturate (n : ℤ) : ℤ := max rawMin (min rawMax n)

/-- **The rational number** that a number stands for. -/
def value (a : Number) : ℚ := a.raw / 10000

/-- **The raw value of a rational result**: ten-thousandths, truncated once and saturated once. -/
def unitsOf (q : ℚ) : ℤ := saturate (truncate (q * 10000))

theorem raw_ofRaw_eq_saturate (n : ℤ) : (ofRaw n).raw = saturate n := by
  have hrange : rawMin ≤ rawMax := by decide
  unfold ofRaw saturate
  split
  · show rawMin = _
    omega
  split
  · show rawMax = _
    omega
  · show n = _
    omega

theorem truncate_neg (q : ℚ) : truncate (-q) = -truncate q := by
  rcases lt_trichotomy q 0 with hneg | rfl | hpos
  · rw [truncate, truncate, if_pos (by linarith), if_neg (by linarith), Int.floor_neg]
  · rfl
  · rw [truncate, truncate, if_neg (by linarith), if_pos (by linarith), Int.ceil_neg]

@[simp] theorem truncate_intCast (n : ℤ) : truncate n = n := by
  rw [truncate, Int.floor_intCast, Int.ceil_intCast, ite_self]

/-- **Integer division truncates the rational quotient.** -/
theorem truncate_div (n d : ℤ) : truncate (n / d) = n.tdiv d := by
  -- the signs are taken off one after the other: natural numbers are divided by rounding down
  have hnat : ∀ m k : ℕ, truncate ((m : ℚ) / k) = (m : ℤ).tdiv k := by
    intro m k
    have hnonneg : 0 ≤ (m : ℚ) / k := div_nonneg m.cast_nonneg k.cast_nonneg
    rw [truncate, if_pos hnonneg, Int.tdiv_eq_ediv_of_nonneg (Int.natCast_nonneg m),
      ← Rat.floor_intCast_div_natCast, Int.cast_natCast]
  have hnumerator : ∀ (n : ℤ) (k : ℕ), truncate ((n : ℚ) / k) = n.tdiv k := by
    intro n k
    obtain ⟨m, rfl | rfl⟩ := n.eq_nat_or_neg
    · rw [Int.cast_natCast, hnat]
    · rw [Int.cast_neg, neg_div, truncate_neg, Int.neg_tdiv, Int.cast_natCast, hnat]
  obtain ⟨k, rfl | rfl⟩ := d.eq_nat_or_neg
  · rw [Int.cast_natCast, hnumerator]
  · rw [Int.cast_neg, div_neg, truncate_neg, Int.tdiv_neg, Int.cast_natCast, hnumerator]

/-! ## Operations -/

variable {a b : Number}

theorem value_eq_zero_iff : a.value = 0 ↔ a = zero := by
  constructor
  · intro h
    have hraw : (a.raw : ℚ) = 0 := by simpa [value] using h
    exact eq_of_raw (Int.cast_eq_zero.mp hraw)
  · rintro rfl
    simp [value]

theorem raw_ne_zero (h : b ≠ zero) : b.raw ≠ 0 := fun hraw => h (eq_of_raw hraw)

/-- An operation that divides integers and saturates yields the raw value of the quotient. -/
theorem raw_ofRaw_tdiv {n d : ℤ} {q : ℚ} (h : q * 10000 = n / d) :
    (ofRaw (n.tdiv d)).raw = unitsOf q := by
  rw [raw_ofRaw_eq_saturate, unitsOf, h, truncate_div]

theorem raw_add (a b : Number) : (a.add b).raw = unitsOf (a.value + b.value) := by
  have hsum : (a.value + b.value) * 10000 = ((a.raw + b.raw : ℤ) : ℚ) := by
    simp only [value, Int.cast_add]
    ring
  rw [add, raw_ofRaw_eq_saturate, unitsOf, hsum, truncate_intCast]

theorem raw_sub (a b : Number) : (a.sub b).raw = unitsOf (a.value - b.value) := by
  have hdifference : (a.value - b.value) * 10000 = ((a.raw - b.raw : ℤ) : ℚ) := by
    simp only [value, Int.cast_sub]
    ring
  rw [sub, raw_ofRaw_eq_saturate, unitsOf, hdifference, truncate_intCast]

theorem raw_mul (a b : Number) : (a.mul b).raw = unitsOf (a.value * b.value) := by
  refine raw_ofRaw_tdiv ?_
  simp only [value, scale, Int.cast_mul]
  push_cast
  ring

theorem div_of_ne_zero (h : b ≠ zero) :
    ∃ q, a.div b = .ok q ∧ q.raw = unitsOf (a.value / b.value) := by
  refine ⟨_, if_neg (raw_ne_zero h), raw_ofRaw_tdiv ?_⟩
  have hb : (b.raw : ℚ) ≠ 0 := Int.cast_ne_zero.mpr (raw_ne_zero h)
  simp only [value, scale, Int.cast_mul]
  push_cast
  field_simp

theorem truncate_value_div (a b : Number) : truncate (a.value / b.value) = a.raw.tdiv b.raw := by
  rw [value, value, div_div_div_cancel_right₀ (by norm_num), truncate_div]

/-- **A remainder is in range**: it is what integer division leaves. -/
theorem mod_of_ne_zero (h : b ≠ zero) : ∃ r, a.mod b = .ok r ∧ r.raw = a.raw.tmod b.raw := by
  refine ⟨_, if_neg (raw_ne_zero h), ?_⟩
  rw [← Int.tmod_def]
  have hle : (a.raw.tmod b.raw).natAbs ≤ a.raw.natAbs := by
    rw [Int.natAbs_tmod]
    exact Nat.mod_le _ _
  have hlt : (a.raw.tmod b.raw).natAbs < b.raw.natAbs := by
    rw [Int.natAbs_tmod]
    exact Nat.mod_lt _ (Int.natAbs_pos.mpr (raw_ne_zero h))
  have ha := a.rawMin_le
  have ha' := a.le_rawMax
  have hb := b.rawMin_le
  have hb' := b.le_rawMax
  -- the dividend may be the least number, but then the remainder is below the divisor
  unfold rawMin rawMax at *
  refine raw_ofRaw ?_ ?_
  · show (-9223372036854775808 : ℤ) ≤ _
    omega
  · show _ ≤ (9223372036854775807 : ℤ)
    omega

/-! ## Remainders -/

variable {r : Number}

theorem value_remainder (h : r.raw = a.raw.tmod b.raw) :
    r.value = a.value - b.value * truncate (a.value / b.value) := by
  rw [truncate_value_div, value, value, value, h, Int.tmod_def]
  push_cast
  ring

theorem abs_value (a : Number) : |a.value| = a.raw.natAbs / 10000 := by
  rw [value, abs_div, Nat.cast_natAbs, Int.cast_abs]
  norm_num

theorem abs_remainder_lt (hb : b ≠ zero) (h : r.raw = a.raw.tmod b.raw) : |r.value| < |b.value| := by
  have hlt : r.raw.natAbs < b.raw.natAbs := by
    rw [h, Int.natAbs_tmod]
    exact Nat.mod_lt _ (Int.natAbs_pos.mpr (raw_ne_zero hb))
  rw [abs_value, abs_value]
  exact div_lt_div_of_pos_right (Nat.cast_lt.mpr hlt) (by norm_num)

theorem value_neg (h : a.raw < 0) : a.value < 0 :=
  div_neg_of_neg_of_pos (Int.cast_lt_zero.mpr h) (by norm_num)

theorem value_pos (h : 0 < a.raw) : 0 < a.value := div_pos (Int.cast_pos.mpr h) (by norm_num)

/-- A remainder that is not zero has the sign of the dividend. -/
theorem sign_remainder (h : r.raw = a.raw.tmod b.raw) :
    r.value = 0 ∨ SignType.sign r.value = SignType.sign a.value := by
  by_cases hzero : r.raw = 0
  · exact Or.inl (value_eq_zero_iff.mpr (eq_of_raw hzero))
  have hsame : r.raw.sign = a.raw.sign := by
    have hsign := Int.sign_tmod a.raw b.raw
    rw [← h] at hsign
    split at hsign
    · exact absurd (Int.sign_eq_zero_iff_zero.mp hsign) hzero
    · exact hsign
  right
  rcases lt_or_gt_of_ne hzero with hneg | hpos
  · have ha : a.raw < 0 := Int.sign_eq_neg_one_iff_neg.mp (hsame ▸ Int.sign_eq_neg_one_of_neg hneg)
    rw [sign_neg (value_neg hneg), sign_neg (value_neg ha)]
  · have ha : 0 < a.raw := Int.sign_eq_one_iff_pos.mp (hsame ▸ Int.sign_eq_one_of_pos hpos)
    rw [sign_pos (value_pos hpos), sign_pos (value_pos ha)]

/-! ## Division by zero -/

theorem div_eq_error_iff : a.div b = .error (.divisionByZero "/") ↔ b = zero := by
  constructor
  · intro h
    by_contra hb
    obtain ⟨q, hq, _⟩ := div_of_ne_zero (a := a) hb
    cases hq.symm.trans h
  · rintro rfl
    rfl

theorem mod_eq_error_iff : a.mod b = .error (.divisionByZero "%") ↔ b = zero := by
  constructor
  · intro h
    by_contra hb
    obtain ⟨r, hr, _⟩ := mod_of_ne_zero (a := a) hb
    cases hr.symm.trans h
  · rintro rfl
    rfl

/-- **Fixed-point arithmetic is exact arithmetic, truncated once and saturated once.**  A remainder is exact:
neither happens to it.  Only a zero divisor stops a division or a remainder. -/
theorem arithmetic_exact (a b : Number) :
    (a.add b).raw = unitsOf (a.value + b.value) ∧
    (a.sub b).raw = unitsOf (a.value - b.value) ∧
    (a.mul b).raw = unitsOf (a.value * b.value) ∧
    (b ≠ zero → ∃ q, a.div b = .ok q ∧ q.raw = unitsOf (a.value / b.value)) ∧
    (b ≠ zero → ∃ r, a.mod b = .ok r ∧
      r.value = a.value - b.value * truncate (a.value / b.value) ∧
      |r.value| < |b.value| ∧ (r.value = 0 ∨ SignType.sign r.value = SignType.sign a.value)) ∧
    (a.div b = .error (.divisionByZero "/") ↔ b = zero) ∧
    (a.mod b = .error (.divisionByZero "%") ↔ b = zero) := by
  refine ⟨raw_add a b, raw_sub a b, raw_mul a b, div_of_ne_zero, ?_, div_eq_error_iff,
    mod_eq_error_iff⟩
  intro hb
  obtain ⟨r, hr, hraw⟩ := mod_of_ne_zero (a := a) hb
  exact ⟨r, hr, value_remainder hraw, abs_remainder_lt hb hraw, sign_remainder hraw⟩

/-- The least number divided by `-1` saturates.  The greatest number is not altered by taking multiples of `-2`
from it, and what is left has its sign. -/
theorem arithmetic_exact_extremes :
    (ofInt (-1) ≠ zero ∧ least.div (ofInt (-1)) = .ok greatest ∧
      greatest.raw = unitsOf (least.value / (ofInt (-1)).value)) ∧
    (ofInt (-2) ≠ zero ∧ ∃ r, greatest.mod (ofInt (-2)) = .ok r ∧ r.raw = 15807 ∧
      r.value = greatest.value - (ofInt (-2)).value * truncate (greatest.value / (ofInt (-2)).value)) := by
  have hne : ofInt (-1) ≠ zero := by decide
  have hne' : ofInt (-2) ≠ zero := by decide
  obtain ⟨_, _, _, hdiv, _⟩ := arithmetic_exact least (ofInt (-1))
  obtain ⟨_, _, _, _, hmod, _⟩ := arithmetic_exact greatest (ofInt (-2))
  obtain ⟨q, hq, hraw⟩ := hdiv hne
  have hgreatest : least.div (ofInt (-1)) = .ok greatest := by decide
  obtain rfl := Except.ok.inj (hgreatest.symm.trans hq)
  obtain ⟨r, hr, hvalue, _⟩ := hmod hne'
  have hremainder : greatest.mod (ofInt (-2)) = .ok (ofRaw 15807) := by decide
  obtain rfl := Except.ok.inj (hremainder.symm.trans hr)
  exact ⟨⟨hne, hgreatest, hraw⟩, hne', _, hremainder, rfl, hvalue⟩

end Straightline.Number
