import Straightline.Number.Elementary
import Straightline.Proofs.Arithmetic
import Straightline.Proofs.DoubleArithmetic

/-!
# Numbers as doubles, and back

A number that is an operand of a power or an angle becomes a double, and a result in doubles becomes a
number again.  Both ways round.  A number always comes back to one near by (`ofFloat_toFloat`), and below
`2 ^ 38` to itself: its double is off by at most `2 ^ (-16)`, so in raw units by less than `1 / 6`,
scaling adds at most `1 / 4`, and together that is less than one half.  Not all numbers above come back
to themselves.

On the way back a double that is finite may become infinite when it is scaled.  This is the only fault
that does not lie in the operands, and `ofFloat_eq_unscalable_iff` says when it arises.
-/

open Float.Model (Format UnpackedFloat)

namespace Straightline

open Binary64

namespace Number

variable {x : Float} {v : Finite} {operator : String}

/-! ## From doubles -/

theorem decode?_scale : decode? 10000.0 = some ⟨false, 10000 * 2 ^ 39, -39⟩ := by
  decide +kernel

theorem magnitude_scale : Finite.magnitude ⟨false, 10000 * 2 ^ 39, -39⟩ = 10000 := by
  norm_num [Finite.magnitude]

/-- Scaling a double to raw units rounds it. -/
theorem rounded_scaled (h : decode? x = some v) :
    Rounded (x * 10000.0) v.negative (v.magnitude * 10000) := by
  have hmul := rounded_mul h decode?_scale
  rwa [magnitude_scale, Bool.xor_false] at hmul

/-- A finite double is scaled to raw units and rounded. -/
theorem ofFloat_of_finite (h : decode? x = some v) : ofFloat operator x =
    (round? (x * 10000.0)).elim (.error .unscalable) fun n => .ok (ofRaw n) := by
  have hfinite : ¬ (x.isNaN ∨ x.isInf) := by
    rw [← decode?_eq_none_iff, h]
    exact Option.some_ne_none v
  unfold ofFloat
  rw [if_neg fun hx => hfinite (Or.inl hx), if_neg fun hx => hfinite (Or.inr hx)]
  cases round? (x * 10000.0) <;> rfl

/-- An infinite double saturates. -/
theorem ofFloat_of_isInf (h : x.isInf) :
    ofFloat operator x = .ok (if x > 0.0 then greatest else least) := by
  have hnan : ¬ x.isNaN := by
    change x.toModel.unpack.isInf = true at h
    change ¬ x.toModel.unpack.isNaN = true
    cases hx : x.toModel.unpack with
    | infinity s => exact Bool.false_ne_true
    | _ => rw [hx] at h; cases h
  unfold ofFloat
  rw [if_neg hnan, if_pos h]

/-- **A double that cannot be scaled**: it is finite, but as raw units it is not. -/
def Unscalable (x : Float) : Prop := ∃ v, decode? x = some v ∧ overflowBound ≤ v.magnitude * 10000

/-- **The only fault that does not lie in the operands** is that of a double that cannot be scaled. -/
theorem ofFloat_eq_unscalable_iff : ofFloat operator x = .error .unscalable ↔ Unscalable x := by
  cases hx : decode? x with
  | none =>
    have hnone : ¬ Unscalable x := by
      rintro ⟨v, hv, _⟩
      rw [hx] at hv
      cases hv
    refine iff_of_false ?_ hnone
    intro h
    by_cases hnan : x.isNaN
    · rw [ofFloat, if_pos hnan] at h
      cases h
    · rw [ofFloat_of_isInf ((decode?_eq_none_iff.mp hx).resolve_left hnan)] at h
      cases h
  | some v =>
    have hiff : Unscalable x ↔ overflowBound ≤ v.magnitude * 10000 := by
      refine ⟨?_, fun h => ⟨v, hx, h⟩⟩
      rintro ⟨w, hw, h⟩
      rw [hx] at hw
      exact Option.some.inj hw ▸ h
    rw [hiff, ← (rounded_scaled hx).infinite_iff, ofFloat_of_finite hx, round?]
    cases decode? (x * 10000.0) <;> simp

/-! ## To doubles -/

/-- The double of a natural number of ten-thousandths. -/
theorem rounded_ofScientific (n : Nat) : Rounded (Float.ofScientific n true 4) false (n / 10000) := by
  by_cases hn : n < 2 ^ 53
  · -- both the number and ten thousand are doubles
    have hdivide : Float.ofScientific n true 4 = n.toUInt64.toFloat / 10000.0 := by
      have hpower : Float.exactlyRepresentablePowersOfTen[4] = 10000.0 := by decide +kernel
      rw [Float.ofScientific, dif_pos ⟨hn, by decide⟩, if_pos rfl, hpower]
    have hword : n.toUInt64.toFloat = ofUnpacked (.ofNat .binary64 n) := by
      change ofUnpacked (.ofNat .binary64 (n % 2 ^ 64)) = _
      rw [Nat.mod_eq_of_lt (by omega)]
    obtain ⟨v, hv, hsign, hmagnitude⟩ := decode?_ofNat hn
    have hdiv := rounded_div hv decode?_scale (by decide)
    rw [hdivide, hword]
    rwa [hsign, hmagnitude, magnitude_scale] at hdiv
  · -- the number is divided with all its bits
    have hpos : 0 < n := by omega
    have hdivide : Float.ofScientific n true 4 = ofUnpacked
        (.div .binary64 (.finite .positive n 0 hpos) (.finite .positive 10000 0 (by decide))) := by
      -- neither is the power of ten so great nor so small that it is not computed
      have hsmall : ¬ Int.negOfNat 4 > 2 ^ Format.binary64.exponentBits := by decide
      have hgreat : ¬ Int.negOfNat 4 < -((2 ^ Format.binary64.exponentBits : Int) + n.log2) := by
        change ¬ (-4 : Int) < -((2 ^ 11 : Int) + n.log2)
        omega
      rw [Float.ofScientific, dif_neg fun h => hn h.1]
      change ofUnpacked (UnpackedFloat.ofScientific .binary64 n (Int.negOfNat 4)) = _
      rw [UnpackedFloat.ofScientific, dif_neg hpos.ne', if_neg hsmall, if_neg hgreat, if_neg (by decide)]
      rfl
    have hdiv := rounded_quotient .positive .positive 0 0 hpos (by decide : 0 < 10000)
    have hvalue : (n : ℚ) * 2 ^ (0 : ℤ) / ((10000 : Nat) * 2 ^ (0 : ℤ)) = n / 10000 := by norm_num
    rw [hdivide, ← hvalue]
    exact hdiv

/-- **The double of a number** is its value rounded. -/
theorem rounded_toFloat (a : Number) :
    Rounded a.toFloat (decide (a.raw < 0)) (a.raw.natAbs / 10000) := by
  have hmagnitude := rounded_ofScientific a.raw.natAbs
  unfold toFloat
  dsimp only
  by_cases hneg : a.raw < 0
  · rw [if_pos hneg, decide_eq_true hneg]
    exact hmagnitude.neg
  · rw [if_neg hneg, decide_eq_false hneg]
    exact hmagnitude

/-! ## There and back -/

/-- How far a number is moved by becoming a double and being scaled again, in raw units: half a unit in
the last place of each. -/
theorem scaled_toFloat_near (a : Number) {M N : ℤ} (hM : -1021 ≤ M ∧ M ≤ 1023)
    (hN : -1021 ≤ N ∧ N ≤ 1023) (hlt : (a.raw.natAbs : ℚ) / 10000 < 2 ^ M)
    (hlt' : a.raw.natAbs + 10000 * 2 ^ (M - 54) < (2 : ℚ) ^ N) :
    ∃ v w, decode? a.toFloat = some v ∧ decode? (a.toFloat * 10000.0) = some w ∧
      w.negative = decide (a.raw < 0) ∧
      |w.magnitude - a.raw.natAbs| ≤ 10000 * 2 ^ (M - 54) + 2 ^ (N - 54) := by
  obtain ⟨v, hv, hsign, hnear⟩ := (rounded_toFloat a).near M hM.1 hM.2 hlt
  have hscaled : |v.magnitude * 10000 - a.raw.natAbs| ≤ 10000 * 2 ^ (M - 54) := by
    rw [abs_le] at hnear ⊢
    constructor <;> linarith
  have hbelow : v.magnitude * 10000 < 2 ^ N := by
    have := (abs_le.mp hscaled).2
    linarith
  obtain ⟨w, hw, hsign', hnear'⟩ := (rounded_scaled hv).near N hN.1 hN.2 hbelow
  refine ⟨v, w, hv, hw, hsign'.trans hsign, ?_⟩
  calc |w.magnitude - a.raw.natAbs|
      ≤ |w.magnitude - v.magnitude * 10000| + |v.magnitude * 10000 - a.raw.natAbs| := abs_sub_le ..
    _ ≤ 10000 * 2 ^ (M - 54) + 2 ^ (N - 54) := by linarith

theorem raw_eq_natAbs (a : Number) :
    a.raw = if decide (a.raw < 0) then -(a.raw.natAbs : Int) else a.raw.natAbs := by
  by_cases hneg : a.raw < 0
  · rw [decide_eq_true hneg, if_pos rfl]
    omega
  · rw [decide_eq_false hneg, if_neg Bool.false_ne_true]
    omega

/-- The greatest raw value up to which all numbers survive the detour through doubles. -/
def exactBound : Nat := 2 ^ 38 * 10000 + 6

/-- The numbers from `2 ^ 38` up to the bound survive. -/
theorem round?_toFloat_boundary : ∀ i < 7, ∀ sign ∈ [1, (-1 : Int)],
    round? (toFloat (ofRaw (sign * (2 ^ 38 * 10000 + i : Nat))) * 10000.0) =
      some (sign * (2 ^ 38 * 10000 + i : Nat)) := by
  decide +kernel

theorem round?_toFloat {a : Number} (ha : a.raw.natAbs ≤ exactBound) :
    round? (a.toFloat * 10000.0) = some a.raw := by
  unfold exactBound at ha
  rcases Nat.lt_or_ge a.raw.natAbs (2 ^ 38 * 10000) with hlt | hge
  · have hcast : (a.raw.natAbs : ℚ) < 2 ^ 38 * 10000 := by exact_mod_cast hlt
    obtain ⟨v, w, hv, hw, hsign, hnear⟩ := scaled_toFloat_near a (M := 38) (N := 52) (by decide)
      (by decide) (by norm_num at hcast ⊢; linarith) (by norm_num at hcast ⊢; linarith)
    have hclose : |w.magnitude - a.raw.natAbs| < 1 / 2 := hnear.trans_lt (by norm_num)
    rw [round?, hw, Option.map_some, Finite.round_eq hclose, hsign, ← raw_eq_natAbs]
  · obtain ⟨i, hi⟩ : ∃ i, a.raw.natAbs = 2 ^ 38 * 10000 + i := Nat.exists_eq_add_of_le hge
    have hraw : a.raw.sign * (2 ^ 38 * 10000 + i : Nat) = a.raw := by
      rw [← hi, Int.sign_mul_natAbs]
    have hsign : a.raw.sign ∈ [1, (-1 : Int)] := by
      rcases Int.sign_trichotomy a.raw with h | h | h
      · simp [h]
      · rw [Int.sign_eq_zero_iff_zero] at h
        omega
      · simp [h]
    have hboundary := round?_toFloat_boundary i (by omega) _ hsign
    rwa [hraw, ofRaw_raw] at hboundary

/-- Saturation brings no number farther from one within range. -/
theorem abs_raw_ofRaw_sub_le (n : Int) (a : Number) : |(ofRaw n).raw - a.raw| ≤ |n - a.raw| := by
  have hmin := a.rawMin_le
  have hmax := a.le_rawMax
  unfold ofRaw
  rcases lt_or_ge n rawMin with hlt | hge
  · rw [dif_pos hlt]
    change |rawMin - a.raw| ≤ _
    rw [abs_of_nonpos (by omega), abs_of_nonpos (by omega)]
    omega
  rcases lt_or_ge rawMax n with hlt | hle
  · rw [dif_neg (by omega), dif_pos hlt]
    change |rawMax - a.raw| ≤ _
    rw [abs_of_nonneg (by omega), abs_of_nonneg (by omega)]
    omega
  · rw [dif_neg (by omega), dif_neg (by omega)]

/-- **The detour through doubles** always comes back to a number near by, and up to the bound to the
number itself. -/
theorem ofFloat_toFloat (operator : String) (a : Number) :
    ∃ b, ofFloat operator a.toFloat = .ok b ∧ |b.raw - a.raw| ≤ 1649 ∧
      (a.raw.natAbs ≤ exactBound → b = a) := by
  have hmin := a.rawMin_le
  have hmax := a.le_rawMax
  unfold rawMin at hmin
  unfold rawMax at hmax
  have hcast : (a.raw.natAbs : ℚ) ≤ 2 ^ 63 := by exact_mod_cast (by omega : a.raw.natAbs ≤ 2 ^ 63)
  obtain ⟨v, w, hv, hw, hsign, hnear⟩ := scaled_toFloat_near a (M := 50) (N := 64) (by decide)
    (by decide) (by norm_num at hcast ⊢; linarith) (by norm_num at hcast ⊢; linarith)
  obtain ⟨r, hround, hr⟩ := w.exists_round
  have hinteger : |(r : Int) - a.raw.natAbs| ≤ 1649 := by
    have hlt : |(r : ℚ) - a.raw.natAbs| < 1650 := by
      calc |(r : ℚ) - a.raw.natAbs|
          ≤ |(r : ℚ) - w.magnitude| + |w.magnitude - a.raw.natAbs| := abs_sub_le ..
        _ ≤ 1 / 2 + (10000 * 2 ^ (50 - 54 : ℤ) + 2 ^ (64 - 54 : ℤ)) := add_le_add hr hnear
        _ < 1650 := by norm_num
    exact Int.lt_add_one_iff.mp (by exact_mod_cast hlt)
  refine ⟨ofRaw w.round, ?_, ?_, ?_⟩
  · rw [ofFloat_of_finite hv, round?, hw, Option.map_some, Option.elim_some]
  · refine (abs_raw_ofRaw_sub_le w.round a).trans ?_
    rw [abs_le] at hinteger ⊢
    rw [hround, hsign]
    by_cases hneg : a.raw < 0
    · rw [decide_eq_true hneg, if_pos rfl]
      omega
    · rw [decide_eq_false hneg, if_neg Bool.false_ne_true]
      omega
  · intro ha
    have hexact := round?_toFloat ha
    rw [round?, hw] at hexact
    rw [Option.some.inj hexact, ofRaw_raw]

end Number

/-! ## A supply of elementary functions -/

namespace Elementary

/-- The natural power of a natural number, rounded; not a number for other operands. -/
def naturalPower (x y : Float) : Float :=
  match (decode? x).bind Finite.integer?, (decode? y).bind Finite.integer? with
  | some (.ofNat n), some (.ofNat k) => .ofNat (Nat.pow n k)
  | _, _ => 0.0 / 0.0

/-- **The elementary functions where their values are plain**: first powers, powers of one, natural
powers, and angles of zero.  Elsewhere they are not numbers. -/
abbrev ofPlainValues : Elementary where
  pow x y := if y = 1.0 then x else if x = 1.0 then 1.0 else naturalPower x y
  sin x := if x = 0.0 then 0.0 else 0.0 / 0.0
  cos x := if x = 0.0 then 1.0 else 0.0 / 0.0
  tan x := if x = 0.0 then 0.0 else 0.0 / 0.0
  asin x := if x = 0.0 then 0.0 else 0.0 / 0.0
  acos x := if x = 1.0 then 0.0 else 0.0 / 0.0
  atan x := if x = 0.0 then 0.0 else 0.0 / 0.0
  radians x := if x = 0.0 then 0.0 else 0.0 / 0.0
  degrees x := if x = 0.0 then 0.0 else 0.0 / 0.0

end Elementary

end Straightline
