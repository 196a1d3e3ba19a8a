import Straightline.Proofs.Rounding

/-!
# Arithmetic on doubles

Products and quotients of finite doubles are the rational ones, rounded (`rounded_mul`, `rounded_div`).
Natural numbers of at most 53 bits are doubles (`decode?_ofNat`), and a double that is nearer to one than
one half is rounded to it (`Finite.round_eq`).
-/

open Float.Model (Format UnpackedFloat totalExponent)
open Float.Model.UnpackedFloat (Sign Accuracy accuracyOfFraction roundWithAccuracy)

namespace Straightline.Binary64

theorem isMinus_mul (s s' : Sign) : isMinus (s * s') = (isMinus s ^^ isMinus s') := by
  cases s <;> cases s' <;> rfl

theorem isMinus_div (s s' : Sign) : isMinus (s / s') = (isMinus s ^^ isMinus s') := by
  cases s <;> cases s' <;> rfl

theorem overflowBound_pos : 0 < overflowBound := mul_pos (by norm_num) (two_zpow_pos 971)

theorem rounded_zero (s : Sign) {q : ℚ} (hq : q = 0) : Rounded (ofUnpacked (.zero s)) (isMinus s) q := by
  subst hq
  constructor
  · intro N _ _ _
    refine ⟨_, decode?_zero s, rfl, ?_⟩
    simpa [Finite.magnitude] using (two_zpow_pos (N - 54)).le
  · rw [decode?_zero]
    exact iff_of_false (Option.some_ne_none _) (not_le.mpr overflowBound_pos)

/-! ## Negation and products -/

section

variable {s s' : Sign} {m m' : Nat} {e e' : Int} {x y : Float} {v w : Finite}

theorem Rounded.neg {negative : Bool} {q : ℚ} (h : Rounded x negative q) :
    Rounded (-x) (!negative) q := by
  constructor
  · intro N hN hN' hq
    obtain ⟨v, hv, hsign, hnear⟩ := h.near N hN hN' hq
    exact ⟨{ v with negative := !v.negative }, by rw [decode?_neg, hv]; rfl, by rw [← hsign], hnear⟩
  · rw [← h.infinite_iff, decode?_neg, Option.map_eq_none_iff]

/-- A product of canonical significands has enough bits, or too little an exponent for more. -/
theorem Canonical.mul_le (h : Canonical m e) (h' : Canonical m' e') (hm : 0 < m) (hm' : 0 < m') :
    e + e' ≤ max ((m * m').log2 + (e + e') - 52) (-1074) := by
  have hlog : 2 ^ 52 ≤ m * m' → 52 ≤ (m * m').log2 := (Nat.le_log2 (by positivity)).mpr
  rcases h.full with hfull | hleast
  · have := hlog (hfull.trans (Nat.le_mul_of_pos_right m hm'))
    omega
  rcases h'.full with hfull | hleast'
  · have := hlog (hfull.trans (Nat.le_mul_of_pos_left m' hm))
    omega
  · omega

/-- **Products are rounded.** -/
theorem rounded_mul (hx : decode? x = some v) (hy : decode? y = some w) :
    Rounded (x * y) (v.negative ^^ w.negative) (v.magnitude * w.magnitude) := by
  change Rounded (ofUnpacked (.mul Format.binary64 x.toModel.unpack y.toModel.unpack)) _ _
  have hcv := (canonical_of_decode? hx).1
  have hcw := (canonical_of_decode? hy).1
  rcases unpack_of_decode? hx with ⟨s, hux, rfl⟩ | ⟨s, m, e, hm, hux, rfl⟩ <;>
    rcases unpack_of_decode? hy with ⟨s', huy, rfl⟩ | ⟨s', m', e', hm', huy, rfl⟩ <;>
    rw [hux, huy, ← isMinus_mul]
  · exact rounded_zero (s * s') (by simp [Finite.magnitude])
  · exact rounded_zero (s * s') (by simp [Finite.magnitude])
  · exact rounded_zero (s * s') (by simp [Finite.magnitude])
  · have hvalue : (m : ℚ) * 2 ^ e * (m' * 2 ^ e') = (m * m' : Nat) / (1 : Nat) * 2 ^ (e + e') := by
      rw [zpow_add₀ (by norm_num)]
      push_cast
      ring
    change Rounded _ _ ((m : ℚ) * 2 ^ e * (m' * 2 ^ e'))
    rw [hvalue]
    exact rounded (.exact (m * m')) Nat.one_pos (hcv.mul_le hcw hm hm')

/-- A product is finite only if its first factor is. -/
theorem decode?_of_mul (h : decode? (x * y) = some w) : ∃ v, decode? x = some v := by
  change decode? (ofUnpacked (.mul Format.binary64 x.toModel.unpack y.toModel.unpack)) = _ at h
  have hinfinite : ∀ s f, decode? (ofUnpacked (.mul Format.binary64 (.infinity s) f)) = none := by
    intro s f
    cases f with
    | finite s' m e hm => exact decode?_infinity (s * s')
    | zero s' => exact decode?_notANumber
    | infinity s' => exact decode?_infinity (s * s')
    | notANumber => exact decode?_notANumber
  rw [decode?_eq x]
  cases hx : x.toModel.unpack with
  | finite s m e hm => exact ⟨_, rfl⟩
  | zero s => exact ⟨_, rfl⟩
  | infinity s =>
    rw [hx, hinfinite] at h
    cases h
  | notANumber =>
    rw [hx] at h
    cases decode?_notANumber.symm.trans h

/-! ## Quotients -/

/-- The quotient of two significands, with the guard bits and the exponent at which it is rounded. -/
theorem divCore_eq (m e m' e') (hm : 0 < m) (hm' : 0 < m') :
    ∃ (k : Nat) (t : Int), e - e' = t + k ∧
      UnpackedFloat.divCore Format.binary64 m e m' e' =
        (m * 2 ^ k / m', t, accuracyOfFraction (m * 2 ^ k % m') m') ∧
      t ≤ max ((m * 2 ^ k / m').log2 + t - 52) (-1074) := by
  have htarget : Format.binary64.targetExponent (totalExponent m e - totalExponent m' e') =
      max (m.log2 + e - (m'.log2 + e') - 53) (-1074) := by
    change max ((m.log2 : Int) + 1 + e - (m'.log2 + 1 + e') - (53 : Nat)) (-1074) = _
    omega
  obtain ⟨t, ht⟩ : ∃ t, t = min (e - e') (max (m.log2 + e - (m'.log2 + e') - 53) (-1074)) :=
    ⟨_, rfl⟩
  obtain ⟨k, hk⟩ : ∃ k, k = (e - e' - t).toNat := ⟨_, rfl⟩
  refine ⟨k, t, by omega, ?_, ?_⟩
  · unfold UnpackedFloat.divCore
    rw [htarget, ← ht]
    dsimp only
    rw [← hk, Nat.shiftLeft_eq]
  · rcases le_or_gt t (-1074) with hle | hlt
    · omega
    -- the shift makes the dividend at least `2 ^ 52` times the divisor
    have hbits : 52 + (m'.log2 + 1) ≤ m.log2 + k := by omega
    have hdividend : 2 ^ 52 * m' ≤ m * 2 ^ k := by
      calc 2 ^ 52 * m' ≤ 2 ^ 52 * 2 ^ (m'.log2 + 1) := Nat.mul_le_mul_left _ Nat.lt_log2_self.le
        _ = 2 ^ (52 + (m'.log2 + 1)) := (Nat.pow_add ..).symm
        _ ≤ 2 ^ (m.log2 + k) := Nat.pow_le_pow_right (by decide) hbits
        _ = 2 ^ m.log2 * 2 ^ k := Nat.pow_add ..
        _ ≤ m * 2 ^ k := Nat.mul_le_mul_right _ (Nat.log2_self_le hm.ne')
    have hquotient : 2 ^ 52 ≤ m * 2 ^ k / m' := (Nat.le_div_iff_mul_le hm').mpr hdividend
    have := (Nat.le_log2 (by omega)).mpr hquotient
    omega

/-- Quotients are rounded, however many bits dividend and divisor have. -/
theorem rounded_quotient (s s' : Sign) (e e' : Int) (hm : 0 < m) (hm' : 0 < m') :
    Rounded (ofUnpacked (.div Format.binary64 (.finite s m e hm) (.finite s' m' e' hm')))
      (isMinus s ^^ isMinus s') (m * 2 ^ e / (m' * 2 ^ e')) := by
  obtain ⟨k, t, hexponent, hcore, hle⟩ := divCore_eq m e m' e' hm hm'
  have hvalue : (m : ℚ) * 2 ^ e / (m' * 2 ^ e') = (m * 2 ^ k : Nat) / m' * 2 ^ t := by
    have he : e = t + k + e' := by omega
    rw [he, zpow_add₀ (by norm_num), zpow_add₀ (by norm_num), zpow_natCast]
    have := two_zpow_pos e'
    have : (0 : ℚ) < m' := by exact_mod_cast hm'
    push_cast
    field_simp
  have hdiv : UnpackedFloat.div Format.binary64 (.finite s m e hm) (.finite s' m' e' hm') =
      roundWithAccuracy Format.binary64 (s / s') (m * 2 ^ k / m') t
        (accuracyOfFraction (m * 2 ^ k % m') m') := by
    change (fun core : Nat × Int × Accuracy => roundWithAccuracy Format.binary64 (s / s') core.1 core.2.1
      core.2.2) (UnpackedFloat.divCore Format.binary64 m e m' e') = _
    rw [hcore]
  rw [hdiv, ← isMinus_div, hvalue]
  exact rounded (.quotient (m * 2 ^ k) hm') hm' hle

/-- **Quotients are rounded.** -/
theorem rounded_div (hx : decode? x = some v) (hy : decode? y = some w) (hw : w.significand ≠ 0) :
    Rounded (x / y) (v.negative ^^ w.negative) (v.magnitude / w.magnitude) := by
  change Rounded (ofUnpacked (.div Format.binary64 x.toModel.unpack y.toModel.unpack)) _ _
  rcases unpack_of_decode? hy with ⟨s', huy, rfl⟩ | ⟨s', m', e', hm', huy, rfl⟩
  · exact absurd rfl hw
  rcases unpack_of_decode? hx with ⟨s, hux, rfl⟩ | ⟨s, m, e, hm, hux, rfl⟩
  · rw [hux, huy, ← isMinus_div]
    exact rounded_zero (s / s') (by simp [Finite.magnitude])
  · rw [hux, huy]
    exact rounded_quotient s s' e e' hm hm'

/-! ## Whole numbers -/

theorem roundDiv_one (n : Nat) : roundDiv n 1 = n := by
  have := roundDiv_cases n 1
  omega

/-- A natural number of at most 53 bits is a double. -/
theorem decode?_ofNat (hm : m < 2 ^ 53) :
    ∃ v, decode? (ofUnpacked (.ofNat Format.binary64 m)) = some v ∧ v.negative = false ∧
      v.magnitude = m := by
  rcases Nat.eq_zero_or_pos m with rfl | hpos
  · exact ⟨_, decode?_zero .positive, rfl, by simp [Finite.magnitude]⟩
  have hlog : m.log2 ≤ 52 := by
    have := (Nat.log2_lt hpos.ne').mpr hm
    omega
  obtain ⟨k, hk⟩ : ∃ k, k = 52 - m.log2 := ⟨_, rfl⟩
  have hofNat : UnpackedFloat.ofNat Format.binary64 m =
      roundWithAccuracy Format.binary64 .positive (m * 2 ^ k) (-k) .exact := by
    have hcompare : compare (m : Int) 0 = .gt := compare_gt_iff_gt.mpr (by omega)
    have hshift : (0 - max ((m.log2 : Int) + 0 - 52) (-1074)).toNat = k := by omega
    unfold UnpackedFloat.ofNat UnpackedFloat.ofInt UnpackedFloat.normalize
    rw [hcompare]
    dsimp only
    unfold UnpackedFloat.round UnpackedFloat.decreaseExponent
    rw [Int.toNat_natCast, targetExponent_eq]
    dsimp only
    rw [hshift, Nat.shiftLeft_eq, zero_sub]
  have hlow : 2 ^ 52 ≤ m * 2 ^ k := by
    calc 2 ^ 52 = 2 ^ m.log2 * 2 ^ k := by rw [← Nat.pow_add]; congr 1; omega
      _ ≤ m * 2 ^ k := Nat.mul_le_mul_right _ (Nat.log2_self_le hpos.ne')
  have hhigh : m * 2 ^ k < 2 ^ 53 := by
    calc m * 2 ^ k < 2 ^ (m.log2 + 1) * 2 ^ k :=
          Nat.mul_lt_mul_of_pos_right Nat.lt_log2_self (by positivity)
      _ = 2 ^ 53 := by rw [← Nat.pow_add]; congr 1; omega
  have hlog' : (m * 2 ^ k).log2 = 52 := (Nat.log2_eq_iff (by omega)).mpr ⟨hlow, hhigh⟩
  have hround := roundWithAccuracy_eq (s := .positive) (k := 0) (.exact (m * 2 ^ k)) Nat.one_pos
    (by rw [hlog']; omega : (-k : Int) + (0 : Nat) = _)
  rw [Nat.pow_zero, Nat.one_mul, roundDiv_one] at hround
  obtain ⟨v, hv, hsign, hmagnitude⟩ :=
    decode?_carried (s := .positive) (t := -k + (0 : Nat)) hhigh.le (by omega) (Or.inl hlow) (by omega)
  refine ⟨v, by rw [hofNat, hround, hv], hsign, ?_⟩
  rw [hmagnitude, Nat.cast_zero, add_zero, zpow_neg, zpow_natCast]
  push_cast
  field_simp

/-- The integer that a double is rounded to is off by at most one half. -/
theorem Finite.exists_round (v : Finite) :
    ∃ r : Nat, v.round = (if v.negative then -(r : Int) else r) ∧
      |(r : ℚ) - v.magnitude| ≤ 1 / 2 := by
  unfold Finite.round Finite.magnitude
  rcases le_or_gt 0 v.exponent with hle | hlt
  · rw [if_pos hle]
    refine ⟨_, rfl, ?_⟩
    have hpow : (2 : ℚ) ^ v.exponent = (Nat.pow 2 v.exponent.toNat : Nat) := by
      rw [← Int.toNat_of_nonneg hle, zpow_natCast, Int.toNat_natCast]
      exact (Nat.cast_pow ..).symm
    rw [hpow, Nat.cast_mul, sub_self]
    norm_num
  · rw [if_neg (not_le.mpr hlt)]
    refine ⟨_, rfl, ?_⟩
    have hpow : (2 : ℚ) ^ v.exponent = ((Nat.pow 2 (-v.exponent).toNat : Nat) : ℚ)⁻¹ := by
      rw [← inv_inj, inv_inv, ← zpow_neg, ← Int.toNat_of_nonneg (by omega : 0 ≤ -v.exponent), zpow_natCast,
        Int.toNat_natCast]
      exact (Nat.cast_pow ..).symm
    rw [hpow, ← div_eq_mul_inv]
    exact abs_roundDiv_sub_le _ (Nat.pow_pos (by decide))

theorem Finite.round_eq {v : Finite} {k : Nat} (h : |v.magnitude - k| < 1 / 2) :
    v.round = if v.negative then -(k : Int) else k := by
  obtain ⟨r, hround, hr⟩ := v.exists_round
  have hclose : |(r : ℚ) - k| < 1 := by
    calc |(r : ℚ) - k| ≤ |(r : ℚ) - v.magnitude| + |v.magnitude - k| := abs_sub_le ..
      _ < 1 := by linarith
  have heq : r = k := by
    have hcast : |((r : ℤ) - k : ℤ)| < 1 := by exact_mod_cast hclose
    have := Int.abs_lt_one_iff.mp hcast
    omega
  rw [hround, heq]

end

end Straightline.Binary64
