import Mathlib.Data.Nat.Sqrt
import Mathlib.Tactic.LinearCombination
import Straightline.Proofs.Truncation

/-!
# Square roots

The root of a natural number that is found two binary digits at a time is the greatest one whose square
does not exceed it (`floorSqrt_eq_sqrt`).  The root of a number is that of its raw value times the scale.
It lies well inside the range, so saturation does not touch it (`sqrt_of_nonneg`), and the bounds on it
are bounds on the raw result (`sqrt_exact`).
-/

namespace Straightline.Number

/-! ## Natural numbers -/

theorem floorSqrt_bounds (n : Nat) :
    floorSqrt n * floorSqrt n ≤ n ∧ n < (floorSqrt n + 1) * (floorSqrt n + 1) := by
  induction n using Nat.strong_induction_on with
  | _ n ih =>
    by_cases hn : n = 0
    · rw [hn, floorSqrt, if_pos rfl]
      decide
    · -- of the root, the root of a quarter gives all digits but the last
      obtain ⟨hle, hlt⟩ := ih (n / 4) (by omega)
      rw [floorSqrt, if_neg hn]
      generalize floorSqrt (n / 4) = r at hle hlt ⊢
      have hfour : 2 * r * (2 * r) = 4 * (r * r) := by ring
      have hnext : (2 * r + 2) * (2 * r + 2) = 4 * ((r + 1) * (r + 1)) := by ring
      dsimp only
      split
      · rename_i hdigit
        exact ⟨hdigit, show n < (2 * r + 2) * (2 * r + 2) by omega⟩
      · rename_i hdigit
        exact ⟨by omega, Nat.not_le.mp hdigit⟩

theorem floorSqrt_eq_sqrt (n : Nat) : floorSqrt n = n.sqrt :=
  Nat.eq_sqrt.mpr (floorSqrt_bounds n)

/-! ## Numbers -/

variable {a m : Number}

/-- The root of a raw value, scaled, is in range. -/
theorem sqrt_scaled_le (a : Number) : (((a.raw.toNat * 10000).sqrt : Nat) : Int) ≤ rawMax := by
  have hle := a.le_rawMax
  have hlt : (a.raw.toNat * 10000).sqrt < 9223372036854775808 := by
    refine Nat.sqrt_lt.mpr ?_
    unfold rawMax at hle
    omega
  unfold rawMax
  omega

/-- **The root of a number that is not negative** is the root of its scaled raw value; saturation leaves
it as it is. -/
theorem sqrt_of_nonneg (h : zero ≤ a) :
    ∃ r, a.sqrt = .ok r ∧ r.raw = (a.raw.toNat * 10000).sqrt := by
  have hneg : ¬ a.raw < 0 := Int.not_lt.mpr h
  refine ⟨_, if_neg hneg, ?_⟩
  rw [floorSqrt_eq_sqrt]
  refine raw_ofRaw ?_ (sqrt_scaled_le a)
  unfold rawMin
  omega

theorem sqrt_eq_error_iff : a.sqrt = .error (.undefined "sqrt" a.toText) ↔ a < zero := by
  constructor
  · intro h
    by_contra hneg
    obtain ⟨r, hr, _⟩ := sqrt_of_nonneg (Int.not_lt.mp hneg)
    cases hr.symm.trans h
  · exact fun h => if_pos h

/-- An exact square, in raw units. -/
theorem raw_mul_self (h : (m.mul m).value = m.value * m.value) :
    (m.mul m).raw * 10000 = m.raw * m.raw := by
  have hscaled : ((m.mul m).raw : ℚ) * 10000 = m.raw * m.raw := by
    simp only [value] at h
    linear_combination 100000000 * h
  exact_mod_cast hscaled

theorem sqrt_mul_self (hm : zero ≤ m) (h : (m.mul m).value = m.value * m.value) :
    (m.mul m).sqrt = .ok m := by
  have hraw := raw_mul_self h
  have hnonneg : 0 ≤ m.raw := hm
  have hsquare : zero ≤ m.mul m := by
    show (0 : Int) ≤ (m.mul m).raw
    nlinarith [mul_self_nonneg m.raw]
  obtain ⟨r, hr, hroot⟩ := sqrt_of_nonneg hsquare
  have hscaled : (m.mul m).raw.toNat * 10000 = m.raw.toNat * m.raw.toNat := by
    zify
    rw [Int.toNat_of_nonneg hsquare, Int.toNat_of_nonneg hnonneg]
    exact hraw
  rw [hscaled, Nat.sqrt_eq, Int.toNat_of_nonneg hnonneg] at hroot
  rw [hr, eq_of_raw hroot]

/-- **The square root is the exact floor.**  It is undefined for the negative numbers and for no others.
The raw result is the greatest integer whose square does not exceed the raw operand times the scale; it
is in range before saturation.  So the root is monotone, and it undoes every square that is exact. -/
theorem sqrt_exact (a : Number) :
    (a.sqrt = .error (.undefined "sqrt" a.toText) ↔ a < zero) ∧
    (zero ≤ a → ∃ r, a.sqrt = .ok r ∧ zero ≤ r ∧ r.raw = floorSqrt (a.raw.toNat * 10000) ∧
      r.raw * r.raw ≤ a.raw * 10000 ∧ a.raw * 10000 < (r.raw + 1) * (r.raw + 1)) ∧
    (∀ b r t, a ≤ b → a.sqrt = .ok r → b.sqrt = .ok t → r ≤ t) ∧
    (zero ≤ a → (a.mul a).value = a.value * a.value → (a.mul a).sqrt = .ok a) := by
  refine ⟨sqrt_eq_error_iff, fun h => ?_, fun b r t hab hr ht => ?_, sqrt_mul_self⟩
  · obtain ⟨r, hr, hroot⟩ := sqrt_of_nonneg h
    have hraw : ((a.raw.toNat : Nat) : Int) = a.raw := Int.toNat_of_nonneg h
    obtain ⟨hle, hlt⟩ := floorSqrt_bounds (a.raw.toNat * 10000)
    rw [← floorSqrt_eq_sqrt] at hroot
    zify at hle hlt
    rw [← hroot, hraw] at hle hlt
    exact ⟨r, hr, by show (0 : Int) ≤ r.raw; omega, hroot, hle, hlt⟩
  · have ha : zero ≤ a := Int.not_lt.mp fun hneg => by cases (sqrt_eq_error_iff.mpr hneg).symm.trans hr
    have hb : zero ≤ b := Int.le_trans ha hab
    obtain ⟨r', hr', hroot⟩ := sqrt_of_nonneg ha
    obtain ⟨t', ht', hroot'⟩ := sqrt_of_nonneg hb
    obtain rfl := Except.ok.inj (hr'.symm.trans hr)
    obtain rfl := Except.ok.inj (ht'.symm.trans ht)
    show r'.raw ≤ t'.raw
    rw [hroot, hroot']
    exact_mod_cast Nat.sqrt_le_sqrt (Nat.mul_le_mul_right 10000 (Int.toNat_le_toNat hab))

/-- The greatest number has a root with four places, and `2.25` has the root that it is the square of. -/
theorem sqrt_exact_extremes :
    (zero ≤ greatest ∧ ∃ r, greatest.sqrt = .ok r ∧ r.raw = 303700049997 ∧
      r.raw * r.raw ≤ greatest.raw * 10000 ∧ greatest.raw * 10000 < (r.raw + 1) * (r.raw + 1)) ∧
    zero ≤ ofRaw 15000 ∧ (ofRaw 15000).mul (ofRaw 15000) = ofRaw 22500 ∧
      (ofRaw 22500).sqrt = .ok (ofRaw 15000) := by
  obtain ⟨_, hroot, _⟩ := sqrt_exact greatest
  obtain ⟨_, _, _, hsquare⟩ := sqrt_exact (ofRaw 15000)
  have hgreatest : zero ≤ greatest := by decide
  have hnonneg : zero ≤ ofRaw 15000 := by decide
  have hmul : (ofRaw 15000).mul (ofRaw 15000) = ofRaw 22500 := by decide
  obtain ⟨r, hr, hzero, hraw, hle, hlt⟩ := hroot hgreatest
  refine ⟨⟨hgreatest, r, hr, ?_, hle, hlt⟩, hnonneg, hmul, ?_⟩
  · have hscaled : greatest.raw.toNat * 10000 = 92233720368547758070000 := by decide
    have hfloor : 303700049997 = Nat.sqrt 92233720368547758070000 :=
      Nat.eq_sqrt.mpr ⟨by decide, by decide⟩
    rw [hraw, hscaled, floorSqrt_eq_sqrt, ← hfloor]
    rfl
  · rw [← hmul]
    refine hsquare hnonneg ?_
    have hfifteen : (ofRaw 15000).raw = 15000 := by decide
    have hproduct : (ofRaw 22500).raw = 22500 := by decide
    rw [hmul, value, value, hfifteen, hproduct]
    norm_num

end Straightline.Number
