import Mathlib.Algebra.Order.Field.Rat
import Mathlib.Tactic.FieldSimp
import Mathlib.Tactic.Linarith
import Mathlib.Tactic.Positivity
import Mathlib.Tactic.Ring
import Straightline.Proofs.Doubles

/-!
# How doubles are rounded

Arithmetic on doubles computes a quotient `n / d` of natural numbers to some bits, keeps track of what it
cut off in two guard bits (`Guards`), and rounds to 53 bits once.  What comes of it is said in rational
numbers (`Rounded`): the double is as near as half a unit in the last place, a half going to the even
side, and it is infinite exactly from `overflowBound` on.  The step is `rounded`; every operation gives
it enough bits, or too little an exponent for more.
-/

open Float.Model (Format UnpackedFloat totalExponent)
open Float.Model.UnpackedFloat (Sign Accuracy ExtendedMantissa accuracyOfFraction shiftToExponent
  shiftToTargetExponent roundWithAccuracy)

namespace Straightline.Binary64

/-! ## Quotients with guard bits -/

/-- **Which way a quotient is rounded**: down up to one half, and up from one half on; at one half to the
even side. -/
theorem roundDiv_cases (n d : Nat) :
    roundDiv n d = n / d ∧ 2 * (n % d) ≤ d ∧ (2 * (n % d) = d → n / d % 2 = 0) ∨
      roundDiv n d = n / d + 1 ∧ d ≤ 2 * (n % d) ∧ (2 * (n % d) = d → n / d % 2 = 1) := by
  unfold roundDiv
  dsimp only
  split
  · omega
  split
  · omega
  split
  · omega
  · omega

theorem roundDiv_bounds {n d : Nat} (hd : 0 < d) :
    2 * (roundDiv n d * d) ≤ 2 * n + d ∧ 2 * n ≤ 2 * (roundDiv n d * d) + d := by
  have hn : n / d * d + n % d = n := Nat.div_add_mod' n d
  have hr := Nat.mod_lt n hd
  rcases roundDiv_cases n d with ⟨heq, _⟩ | ⟨heq, _⟩
  · rw [heq]
    omega
  · rw [heq, Nat.add_mul]
    omega

/-- **A significand with its guard bits** that stands for `n / d`: the first bit that is cut off, and
whether any bit follows it. -/
structure Guards (em : ExtendedMantissa) (n d : Nat) : Prop where
  mantissa : em.mantissa = n / d
  roundBit : em.roundBit = decide (d ≤ 2 * (n % d))
  stickyBit : em.stickyBit = decide (n % d ≠ 0 ∧ 2 * (n % d) ≠ d)

namespace Guards

variable {em : ExtendedMantissa} {n d : Nat}

/-- The significand itself, whatever its accuracy. -/
theorem mantissa_eq {m : Nat} {acc : Accuracy} (h : Guards (.ofMantissaAndAccuracy m acc) n d) :
    m = n / d := by
  rw [← h.mantissa]
  cases acc with
  | exact => rfl
  | inexact o => cases o <;> rfl

theorem div_eq {m : Nat} {acc : Accuracy} (h : Guards (.ofMantissaAndAccuracy m acc) n d) (k : Nat) :
    n / (d * 2 ^ k) = m / 2 ^ k := by
  rw [← Nat.div_div_eq_div_mul, ← h.mantissa_eq]

/-- The guard bits decide how the significand is rounded. -/
theorem roundedMantissa (h : Guards em n d) (hd : 0 < d) : em.roundedMantissa = roundDiv n d := by
  obtain ⟨m, roundBit, stickyBit⟩ := em
  obtain ⟨rfl, rfl, rfl⟩ := h
  unfold roundDiv
  dsimp only
  rcases Nat.lt_trichotomy (2 * (n % d)) d with hlt | heq | hgt
  · rw [if_pos hlt, decide_eq_false (by omega : ¬ d ≤ 2 * (n % d))]
    cases decide (n % d ≠ 0 ∧ 2 * (n % d) ≠ d) <;> rfl
  · rw [if_neg (by omega), if_neg (by omega), decide_eq_true (by omega : d ≤ 2 * (n % d)),
      decide_eq_false (by omega : ¬ (n % d ≠ 0 ∧ 2 * (n % d) ≠ d))]
    change n / d + n / d % 2 = _
    split <;> omega
  · rw [if_neg (by omega), if_pos hgt, decide_eq_true (by omega : d ≤ 2 * (n % d)),
      decide_eq_true (by omega : n % d ≠ 0 ∧ 2 * (n % d) ≠ d)]
    rfl

/-- Cutting off one more bit halves the number that is stood for. -/
theorem shiftRightOne (h : Guards em n d) (hd : 0 < d) : Guards em.shiftRightOne n (d * 2) := by
  obtain ⟨m, roundBit, stickyBit⟩ := em
  obtain ⟨rfl, rfl, rfl⟩ := h
  have hr := Nat.mod_lt n hd
  have hmod : n % (d * 2) = n % d + d * (n / d % 2) := Nat.mod_mul
  refine ⟨Nat.div_div_eq_div_mul n d 2, ?_, ?_⟩
  · change (n / d % 2 != 0) = _
    rw [hmod]
    rcases Nat.mod_two_eq_zero_or_one (n / d) with h | h
    · rw [h, decide_eq_false (by omega)]
      rfl
    · rw [h, decide_eq_true (by omega)]
      rfl
  · change (decide _ || decide _) = _
    rw [← Bool.decide_or, decide_eq_decide, hmod]
    rcases Nat.mod_two_eq_zero_or_one (n / d) with h | h
    · rw [h]
      omega
    · rw [h]
      omega

theorem shiftRight (h : Guards em n d) (hd : 0 < d) (k : Nat) : Guards (em >>> k) n (d * 2 ^ k) := by
  change Guards (k.repeat ExtendedMantissa.shiftRightOne em) _ _
  induction k with
  | zero => simpa [Nat.repeat] using h
  | succ k ih =>
    rw [Nat.repeat, Nat.pow_succ, ← Nat.mul_assoc]
    exact ih.shiftRightOne (by positivity)

theorem exact (m : Nat) : Guards (.ofMantissaAndAccuracy m .exact) m 1 := by
  refine ⟨(Nat.div_one m).symm, ?_, ?_⟩
  · rw [Nat.mod_one]
    rfl
  · rw [Nat.mod_one]
    rfl

/-- The guard bits of a quotient. -/
theorem quotient (n : Nat) (hd : 0 < d) :
    Guards (.ofMantissaAndAccuracy (n / d) (accuracyOfFraction (n % d) d)) n d := by
  have hr := Nat.mod_lt n hd
  unfold accuracyOfFraction
  split
  · rename_i hzero
    refine ⟨rfl, ?_, ?_⟩
    · rw [hzero, decide_eq_false (by omega)]
      rfl
    · rw [hzero]
      rfl
  · rename_i hne
    rcases Nat.lt_trichotomy (2 * (n % d)) d with hlt | heq | hgt
    · rw [Nat.compare_eq_lt.mpr hlt]
      exact ⟨rfl, (decide_eq_false (by omega)).symm, (decide_eq_true (by omega)).symm⟩
    · rw [Nat.compare_eq_eq.mpr heq]
      exact ⟨rfl, (decide_eq_true (by omega)).symm, (decide_eq_false (by omega)).symm⟩
    · rw [Nat.compare_eq_gt.mpr hgt]
      exact ⟨rfl, (decide_eq_true (by omega)).symm, (decide_eq_true (by omega)).symm⟩

end Guards

/-! ## Rounding to 53 bits -/

section

variable {s : Sign} {m n d k : Nat} {e t : Int} {acc : Accuracy}

/-- The exponent that a magnitude of `m · 2^e` is rounded at. -/
theorem targetExponent_eq (m : Nat) (e : Int) :
    Format.binary64.targetExponent (totalExponent m e) = max (m.log2 + e - 52) (-1074) := by
  change max ((m.log2 : Int) + 1 + e - (53 : Nat)) (-1074) = _
  omega

/-- A significand that rounding has carried to 54 bits loses its last one, which is zero. -/
def carried (s : Sign) (r : Nat) (t : Int) : UnpackedFloat :=
  if h : r = 0 then .zero s
  else if r < 2 ^ 53 then .finite s r t (Nat.pos_of_ne_zero h)
  else .finite s (2 ^ 52) (t + 1) (by decide)

theorem shiftToTargetExponent_of_lt (hm : m < 2 ^ 53) (he : -1074 ≤ e) :
    shiftToTargetExponent Format.binary64 m e .exact = (⟨m, false, false⟩, e) := by
  have hlog : m.log2 ≤ 52 := by
    by_cases h : m = 0
    · rw [h]
      decide
    · have := (Nat.log2_lt h).mpr hm
      omega
  have hshift : (Format.binary64.targetExponent (totalExponent m e) - e).toNat = 0 := by
    rw [targetExponent_eq]
    omega
  rw [shiftToTargetExponent, shiftToExponent, hshift]
  exact Prod.ext rfl (Int.add_zero e)

theorem shiftToTargetExponent_carry (he : -1074 ≤ e) :
    shiftToTargetExponent Format.binary64 (2 ^ 53) e .exact = (⟨2 ^ 52, false, false⟩, e + 1) := by
  have hlog : (2 ^ 53 : Nat).log2 = 53 := by decide
  have hshift : (Format.binary64.targetExponent (totalExponent (2 ^ 53) e) - e).toNat = 1 := by
    rw [targetExponent_eq, hlog]
    omega
  rw [shiftToTargetExponent, shiftToExponent, hshift]
  rfl

/-- At the target exponent a significand has 53 bits, or fewer if the exponent is the least one. -/
theorem significand_at_target (hk : e + k = max (m.log2 + e - 52) (-1074)) :
    m / 2 ^ k < 2 ^ 53 ∧ (2 ^ 52 ≤ m / 2 ^ k ∨ e + k = -1074) := by
  constructor
  · rw [Nat.div_lt_iff_lt_mul (by positivity), ← Nat.pow_add]
    exact lt_of_lt_of_le Nat.lt_log2_self (Nat.pow_le_pow_right (by decide) (by omega))
  · by_cases hleast : e + (k : Int) = -1074
    · exact Or.inr hleast
    have hm : m ≠ 0 := by
      rintro rfl
      rw [Nat.log2_zero] at hk
      omega
    rw [Nat.le_div_iff_mul_le (by positivity), ← Nat.pow_add]
    exact Or.inl ((Nat.pow_le_pow_right (by decide) (by omega)).trans (Nat.log2_self_le hm))

/-- **Rounding at the target exponent**: the quotient is rounded once, a half to the even side. -/
theorem roundWithAccuracy_eq (hg : Guards (.ofMantissaAndAccuracy m acc) n d) (hd : 0 < d)
    (ht : e + k = max (m.log2 + e - 52) (-1074)) :
    roundWithAccuracy Format.binary64 s m e acc = carried s (roundDiv n (d * 2 ^ k)) (e + k) := by
  have hk : (Format.binary64.targetExponent (totalExponent m e) - e).toNat = k := by
    rw [targetExponent_eq, ← ht]
    omega
  have hround : (ExtendedMantissa.ofMantissaAndAccuracy m acc >>> k).roundedMantissa =
      roundDiv n (d * 2 ^ k) :=
    (hg.shiftRight hd k).roundedMantissa (by positivity)
  have hbound : roundDiv n (d * 2 ^ k) ≤ 2 ^ 53 := by
    have hcases := roundDiv_cases n (d * 2 ^ k)
    have hlt := (significand_at_target ht).1
    rw [hg.div_eq] at hcases
    omega
  generalize roundDiv n (d * 2 ^ k) = r at hround hbound
  have hfirst : shiftToTargetExponent Format.binary64 m e acc =
      (ExtendedMantissa.ofMantissaAndAccuracy m acc >>> k, e + k) := by
    rw [shiftToTargetExponent, shiftToExponent, hk]
  have he : -1074 ≤ e + (k : Int) := by omega
  unfold roundWithAccuracy carried
  rw [hfirst]
  dsimp only
  rw [hround]
  by_cases hr : r < 2 ^ 53
  · rw [shiftToTargetExponent_of_lt hr he]
    by_cases hzero : r = 0
    · rw [dif_pos hzero, dif_pos hzero]
    · rw [dif_neg hzero, dif_neg hzero, if_pos hr]
  · obtain rfl : r = 2 ^ 53 := by omega
    rw [shiftToTargetExponent_carry he]
    rfl

/-! ## Magnitudes -/

/-- The magnitude of a finite double. -/
def Finite.magnitude (v : Finite) : ℚ := v.significand * 2 ^ v.exponent

theorem two_zpow_pos (e : ℤ) : (0 : ℚ) < 2 ^ e := zpow_pos (by norm_num) e

/-- **The bound of overflow**, halfway between the greatest finite double and `2 ^ 1024`. -/
def overflowBound : ℚ := (2 ^ 53 - 1 / 2) * 2 ^ (971 : ℤ)

/-- **A double that a magnitude was rounded to**: below `2 ^ N` it is off by at most half a unit in the
last of 53 places, and it is infinite from the bound of overflow on. -/
structure Rounded (x : Float) (negative : Bool) (q : ℚ) : Prop where
  near : ∀ N : ℤ, -1021 ≤ N → N ≤ 1023 → q < 2 ^ N →
    ∃ v, decode? x = some v ∧ v.negative = negative ∧ |v.magnitude - q| ≤ 2 ^ (N - 54)
  infinite_iff : decode? x = none ↔ overflowBound ≤ q

/-- A carried significand is packed without loss, unless its exponent is too great. -/
theorem decode?_carried {r : Nat} (hr : r ≤ 2 ^ 53) (ht : -1074 ≤ t) (hfull : 2 ^ 52 ≤ r ∨ t = -1074)
    (hfits : t < 971 ∨ t = 971 ∧ r < 2 ^ 53) :
    ∃ v, decode? (ofUnpacked (carried s r t)) = some v ∧ v.negative = isMinus s ∧
      v.magnitude = r * 2 ^ t := by
  unfold carried
  by_cases hzero : r = 0
  · rw [dif_pos hzero]
    refine ⟨_, decode?_zero s, rfl, ?_⟩
    simp [Finite.magnitude, hzero]
  rw [dif_neg hzero]
  by_cases hlt : r < 2 ^ 53
  · rw [if_pos hlt]
    exact ⟨_, decode?_finite ⟨hlt, ht, hfull⟩ (by omega), rfl, rfl⟩
  · rw [if_neg hlt]
    refine ⟨_, decode?_finite ⟨by decide, by omega, Or.inl (Nat.le_refl _)⟩ (by omega), rfl, ?_⟩
    obtain rfl : r = 2 ^ 53 := by omega
    rw [Finite.magnitude, zpow_add_one₀ (by norm_num)]
    push_cast
    ring

theorem decode?_carried_eq_none {r : Nat} (hzero : r ≠ 0)
    (hfits : 971 < t ∨ t = 971 ∧ r = 2 ^ 53) : decode? (ofUnpacked (carried s r t)) = none := by
  unfold carried
  rw [dif_neg hzero]
  by_cases hlt : r < 2 ^ 53
  · rw [if_pos hlt]
    exact decode?_overflow (by omega)
  · rw [if_neg hlt]
    exact decode?_overflow (by omega)

/-- Rounding a quotient to the nearest natural number is off by at most one half. -/
theorem abs_roundDiv_sub_le (n : Nat) (hd : 0 < d) : |(roundDiv n d : ℚ) - n / d| ≤ 1 / 2 := by
  obtain ⟨hle, hge⟩ := roundDiv_bounds (n := n) hd
  have hd' : (0 : ℚ) < d := by exact_mod_cast hd
  have hle' : 2 * ((roundDiv n d : ℚ) * d) ≤ 2 * n + d := by exact_mod_cast hle
  have hge' : (2 : ℚ) * n ≤ 2 * (roundDiv n d * d) + d := by exact_mod_cast hge
  have hn : (n : ℚ) / d * d = n := div_mul_cancel₀ _ hd'.ne'
  rw [abs_le]
  constructor
  · nlinarith
  · nlinarith

/-- A quotient is rounded up to an even number from halfway below it on. -/
theorem le_roundDiv_iff {c : Nat} (hc : c % 2 = 0) (hd : 0 < d) :
    c ≤ roundDiv n d ↔ (c : ℚ) - 1 / 2 ≤ n / d := by
  have hd' : (0 : ℚ) < d := by exact_mod_cast hd
  have hwhole : c ≤ roundDiv n d ↔ 2 * (c * d) ≤ 2 * n + d := by
    have hn : n / d * d + n % d = n := Nat.div_add_mod' n d
    have hr := Nat.mod_lt n hd
    have hcases := roundDiv_cases n d
    rcases Nat.lt_trichotomy c (n / d + 1) with hlt | heq | hgt
    · have hle : c * d ≤ n / d * d := Nat.mul_le_mul_right d (by omega)
      omega
    · have hmul : c * d = n / d * d + d := by rw [heq, Nat.add_mul, Nat.one_mul]
      omega
    · have hle : (n / d + 2) * d ≤ c * d := Nat.mul_le_mul_right d (by omega)
      rw [Nat.add_mul] at hle
      omega
  have hcast : 2 * (c * d) ≤ 2 * n + d ↔ 2 * ((c : ℚ) * d) ≤ 2 * n + d := by exact_mod_cast Iff.rfl
  rw [hwhole, hcast, le_div_iff₀ hd', sub_mul]
  constructor
  · intro h
    linarith
  · intro h
    linarith

/-- A carried significand in rational terms: `r` is the quotient `c` rounded. -/
theorem rounded_carried {r : Nat} {c : ℚ} (hr : r ≤ 2 ^ 53) (hnear : |r - c| ≤ 1 / 2) (hc : c < 2 ^ 53)
    (ht : -1074 ≤ t) (hfull : 2 ^ 52 ≤ r ∧ 2 ^ 52 ≤ c ∨ t = -1074)
    (htie : 2 ^ 53 ≤ r ↔ 2 ^ 53 - 1 / 2 ≤ c) :
    Rounded (ofUnpacked (carried s r t)) (isMinus s) (c * 2 ^ t) := by
  have hpos := two_zpow_pos t
  have hfull' : 2 ^ 52 ≤ r ∨ t = -1074 := hfull.imp_left And.left
  constructor
  · intro N hN hN' hlt
    have htN : t + 53 ≤ N := by
      rcases hfull with ⟨_, hfull⟩ | hfull
      · have hle : (2 : ℚ) ^ (52 + t) ≤ c * 2 ^ t := by
          rw [zpow_add₀ (by norm_num)]
          exact mul_le_mul_of_nonneg_right (by exact_mod_cast hfull) hpos.le
        have := (zpow_lt_zpow_iff_right₀ (by norm_num : (1 : ℚ) < 2)).mp (hle.trans_lt hlt)
        omega
      · omega
    obtain ⟨v, hv, hsign, hmagnitude⟩ := decode?_carried (s := s) hr ht hfull' (by omega)
    refine ⟨v, hv, hsign, ?_⟩
    rw [hmagnitude, ← sub_mul, abs_mul, abs_of_pos hpos]
    calc |r - c| * 2 ^ t ≤ 1 / 2 * 2 ^ t := mul_le_mul_of_nonneg_right hnear hpos.le
      _ = 2 ^ (t - 1) := by rw [zpow_sub_one₀ (by norm_num)]; ring
      _ ≤ 2 ^ (N - 54) := zpow_le_zpow_right₀ (by norm_num) (by omega)
  · have hdouble : ∀ u : ℤ, (2 : ℚ) ^ (u + 1) = 2 ^ u * 2 := fun u => zpow_add_one₀ (by norm_num) u
    unfold overflowBound
    rcases lt_trichotomy t 971 with hlt | heq | hgt
    · obtain ⟨v, hv, _⟩ := decode?_carried (s := s) hr ht hfull' (Or.inl hlt)
      rw [hv]
      refine iff_of_false (Option.some_ne_none v) (not_le.mpr ?_)
      have hpow : (2 : ℚ) ^ t * 2 ≤ 2 ^ (971 : ℤ) :=
        hdouble t ▸ zpow_le_zpow_right₀ (by norm_num) (by omega)
      have hhigh : c * 2 ^ t < 2 ^ 53 * 2 ^ t := mul_lt_mul_of_pos_right hc hpos
      generalize (2 : ℚ) ^ (971 : ℤ) = b at hpow ⊢
      linarith
    · subst heq
      rw [mul_le_mul_iff_left₀ hpos, ← htie]
      by_cases hlt : r < 2 ^ 53
      · obtain ⟨v, hv, _⟩ := decode?_carried (s := s) hr ht hfull' (Or.inr ⟨rfl, hlt⟩)
        rw [hv]
        exact iff_of_false (Option.some_ne_none v) (by omega)
      · rw [decode?_carried_eq_none (by omega) (Or.inr ⟨rfl, by omega⟩)]
        exact iff_of_true rfl (by omega)
    · obtain ⟨hr', hc'⟩ := hfull.resolve_right (by omega)
      rw [decode?_carried_eq_none (by omega) (Or.inl hgt)]
      refine iff_of_true rfl ?_
      have hpow : (2 : ℚ) ^ (971 : ℤ) * 2 ≤ 2 ^ t :=
        hdouble 971 ▸ zpow_le_zpow_right₀ (by norm_num) (by omega)
      have hlow : 2 ^ 52 * 2 ^ t ≤ c * 2 ^ t := mul_le_mul_of_nonneg_right hc' hpos.le
      have hpos' := two_zpow_pos 971
      generalize (2 : ℚ) ^ (971 : ℤ) = b at hpow hpos' ⊢
      linarith

/-- **Rounding a quotient** that has enough bits, or too little an exponent for more. -/
theorem rounded (hg : Guards (.ofMantissaAndAccuracy m acc) n d) (hd : 0 < d)
    (he : e ≤ max (m.log2 + e - 52) (-1074)) :
    Rounded (ofUnpacked (roundWithAccuracy Format.binary64 s m e acc)) (isMinus s) (n / d * 2 ^ e) := by
  obtain ⟨k, hk⟩ : ∃ k : Nat, e + k = max (m.log2 + e - 52) (-1074) :=
    ⟨(max (m.log2 + e - 52) (-1074) - e).toNat, by omega⟩
  obtain ⟨hhigh, hlow⟩ := significand_at_target hk
  have hcases := roundDiv_cases n (d * 2 ^ k)
  have hD : 0 < d * 2 ^ k := by positivity
  have hD' : (0 : ℚ) < (d * 2 ^ k : Nat) := by exact_mod_cast hD
  have hq : (n : ℚ) / d * 2 ^ e = n / (d * 2 ^ k : Nat) * 2 ^ (e + k) := by
    rw [zpow_add₀ (by norm_num), zpow_natCast]
    push_cast
    field_simp
  rw [roundWithAccuracy_eq hg hd hk, hq]
  rw [← hg.div_eq] at hhigh hlow
  refine rounded_carried (by omega) (abs_roundDiv_sub_le n hD) ?_ (by omega) ?_ ?_
  · rw [Nat.div_lt_iff_lt_mul hD] at hhigh
    rw [div_lt_iff₀ hD']
    exact_mod_cast hhigh
  · refine hlow.imp_left fun hlow => ⟨by omega, ?_⟩
    rw [Nat.le_div_iff_mul_le hD] at hlow
    rw [le_div_iff₀ hD']
    exact_mod_cast hlow
  · rw [le_roundDiv_iff (by decide) hD]
    norm_num

end

end Straightline.Binary64
