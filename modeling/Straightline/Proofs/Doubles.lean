import Mathlib.Algebra.Order.Ring.Nat
import Straightline.Number.Binary64

/-!
# Doubles and their parts

`decode?` reads the parts of a double off its bits.  Here they are tied to the form that arithmetic on
doubles works on, an unpacked sign, significand and exponent: a double is decoded to the parts of its
unpacked form (`decode?_eq`), and packing a canonical triple keeps its parts (`decode?_finite`) or, if
its exponent is too great, leaves nothing finite (`decode?_overflow`).
-/

open Float.Model (Format UnpackedFloat)
open Float.Model.UnpackedFloat (Sign packComponents unpackSign unpackExponent unpackMantissa)

namespace Straightline.Binary64

/-! ## Unpacking -/

/-- Whether a sign is a minus sign. -/
def isMinus : Sign → Bool
  | .negative => true
  | .positive => false

theorem toNat_unpackMantissa (b : BitVec 64) :
    (@unpackMantissa Format.binary64 b).toNat = b.toNat % 2 ^ 52 := by
  change (b.extractLsb 51 0).toNat = _
  rw [BitVec.extractLsb_toNat, Nat.shiftRight_zero]

theorem toNat_unpackExponent (b : BitVec 64) :
    (@unpackExponent Format.binary64 b).toNat = b.toNat / 2 ^ 52 % 2048 := by
  change (b.extractLsb 62 52).toNat = _
  rw [BitVec.extractLsb_toNat, Nat.shiftRight_eq_div_pow]

theorem toNat_unpackSign (b : BitVec 64) :
    (@unpackSign Format.binary64 b).toNat = b.toNat / 2 ^ 63 := by
  have := b.isLt
  change (b.extractLsb 63 63).toNat = _
  rw [BitVec.extractLsb_toNat, Nat.shiftRight_eq_div_pow]
  omega

theorem isMinus_ofBitVec (b : BitVec 1) : isMinus (Sign.ofBitVec b) = decide (b.toNat = 1) := by
  revert b
  decide

theorem toNat_append {n k : Nat} (a : BitVec n) (b : BitVec k) :
    (a ++ b).toNat = a.toNat * 2 ^ k + b.toNat := by
  rw [BitVec.toNat_append, ← Nat.shiftLeft_add_eq_or_of_lt b.isLt, Nat.shiftLeft_eq]

/-- A double in terms of its bits. -/
theorem decode?_bits {x : Float} {n : Nat} (h : x.toBits.toNat = n) : decode? x =
    if n / 2 ^ 52 % 2048 = 2047 then none
    else if n / 2 ^ 52 % 2048 = 0 then some ⟨decide (n / 2 ^ 63 = 1), n % 2 ^ 52, -1074⟩
    else some ⟨decide (n / 2 ^ 63 = 1), 2 ^ 52 + n % 2 ^ 52, ((n / 2 ^ 52 % 2048 : Nat) : Int) - 1075⟩ := by
  subst h
  rfl

/-- The exact value of an unpacked double, in parts. -/
def parts? : UnpackedFloat → Option Finite
  | .finite s m e _ => some ⟨isMinus s, m, e⟩
  | .zero s => some ⟨isMinus s, 0, -1074⟩
  | _ => none

/-- A double is decoded to the parts of its unpacked form. -/
theorem decode?_eq (x : Float) : decode? x = parts? x.toModel.unpack := by
  unfold Float.Model.unpack UnpackedFloat.unpack
  generalize hb : x.toModel.toBits.toBitVec = b
  have hm := toNat_unpackMantissa b
  have he := toNat_unpackExponent b
  have hsign : isMinus (Sign.ofBitVec (@unpackSign Format.binary64 b))
      = decide (b.toNat / 2 ^ 63 = 1) := by
    rw [isMinus_ofBitVec, toNat_unpackSign]
  have hinfinite : @unpackExponent Format.binary64 b = -1#_ ↔ b.toNat / 2 ^ 52 % 2048 = 2047 := by
    rw [← BitVec.toNat_inj, he]
    rfl
  have hsmall : @unpackExponent Format.binary64 b = 0#_ ↔ b.toNat / 2 ^ 52 % 2048 = 0 := by
    rw [← BitVec.toNat_inj, he]
    rfl
  rw [decode?_bits (congrArg BitVec.toNat hb)]
  dsimp only
  by_cases h : b.toNat / 2 ^ 52 % 2048 = 2047
  · rw [if_pos h, if_pos (hinfinite.mpr h)]
    split <;> rfl
  by_cases h' : b.toNat / 2 ^ 52 % 2048 = 0
  · rw [if_neg h, if_pos h', if_neg (mt hinfinite.mp h), if_pos (hsmall.mpr h')]
    by_cases hzero : @unpackMantissa Format.binary64 b = 0#52
    · have hfraction : b.toNat % 2 ^ 52 = 0 := by rw [← hm, hzero]; rfl
      rw [dif_pos hzero, hfraction, ← hsign]
      rfl
    · rw [dif_neg hzero]
      change _ = some (Finite.mk _ _ _)
      rw [hsign, hm, he, h']
      rfl
  · rw [if_neg h, if_neg h', if_neg (mt hinfinite.mp h), if_neg (mt hsmall.mp h')]
    change _ = some (Finite.mk _ _ _)
    rw [toNat_append, hm, hsign, he]
    rfl

/-! ## Packing -/

/-- **The shape of a finite double**: a significand of at most 53 bits, and of no fewer unless the
exponent is the least one. -/
structure Canonical (significand : Nat) (exponent : Int) : Prop where
  lt : significand < 2 ^ 53
  le : -1074 ≤ exponent
  full : 2 ^ 52 ≤ significand ∨ exponent = -1074

/-- The double that an unpacked one is packed to. -/
def ofUnpacked (f : UnpackedFloat) : Float := .ofModel (.pack f)

theorem toNat_packComponents (s : Sign) (e : BitVec 11) (m : BitVec 52) :
    (packComponents Format.binary64 s e m).toNat =
      (s.toBitVec.toNat * 2 ^ 11 + e.toNat) * 2 ^ 52 + m.toNat := by
  rw [packComponents, toNat_append, toNat_append]

theorem toNat_toBitVec (s : Sign) : s.toBitVec.toNat = if isMinus s then 1 else 0 := by
  cases s <;> rfl

/-- A double decoded from its bits. -/
theorem decode?_packComponents {f : UnpackedFloat} {s : Sign} {e : BitVec 11} {m : BitVec 52}
    (h : UnpackedFloat.pack Format.binary64 f = packComponents Format.binary64 s e m) :
    decode? (ofUnpacked f) =
      if e.toNat = 2047 then none
      else if e.toNat = 0 then some ⟨isMinus s, m.toNat, -1074⟩
      else some ⟨isMinus s, 2 ^ 52 + m.toNat, (e.toNat : Int) - 1075⟩ := by
  have hbits : (ofUnpacked f).toBits.toNat =
      (s.toBitVec.toNat * 2 ^ 11 + e.toNat) * 2 ^ 52 + m.toNat := by
    rw [← toNat_packComponents, ← h]
    rfl
  have he := e.isLt
  have hm := m.isLt
  have hsign : decide (((s.toBitVec.toNat * 2 ^ 11 + e.toNat) * 2 ^ 52 + m.toNat) / 2 ^ 63 = 1) =
      isMinus s := by
    rw [toNat_toBitVec]
    cases isMinus s
    · exact decide_eq_false (by simp only [Bool.false_eq_true, if_false]; omega)
    · exact decide_eq_true (by simp only [if_true]; omega)
  have hfield : ((s.toBitVec.toNat * 2 ^ 11 + e.toNat) * 2 ^ 52 + m.toNat) / 2 ^ 52 % 2048 = e.toNat := by
    omega
  have hfraction : ((s.toBitVec.toNat * 2 ^ 11 + e.toNat) * 2 ^ 52 + m.toNat) % 2 ^ 52 = m.toNat := by
    omega
  rw [decode?_bits hbits, hsign, hfield, hfraction]

theorem decode?_zero (s : Sign) : decode? (ofUnpacked (.zero s)) = some ⟨isMinus s, 0, -1074⟩ := by
  rw [decode?_packComponents (f := .zero s) (s := s) (e := 0) (m := 0) rfl]
  rfl

variable {s : Sign} {m : Nat} {e : Int} {hm : 0 < m}

theorem pack_finite (s : Sign) (m : Nat) (e : Int) (hm : 0 < m) :
    UnpackedFloat.pack Format.binary64 (.finite s m e hm) =
    if 2 ^ 11 ≤ (e + 1075).toNat + 1 then packComponents Format.binary64 s (-1#11) 0#52
    else if m.log2 = 52 then
      packComponents Format.binary64 s (BitVec.ofNat 11 (e + 1075).toNat) (BitVec.ofNat 52 m)
    else packComponents Format.binary64 s 0#11 (BitVec.ofNat 52 m) := by
  have hpack : UnpackedFloat.pack Format.binary64 (.finite s m e hm) =
      if 2 ^ 11 ≤ (e + Format.binary64.exponentBias + (52 : Nat)).toNat + 1 then
        packComponents Format.binary64 s (-1#11) 0#52
      else if m.log2 + 1 = Format.binary64.mantissaBits then
        packComponents Format.binary64 s
          (BitVec.ofNat 11 (e + Format.binary64.exponentBias + (52 : Nat)).toNat) (BitVec.ofNat 52 m)
      else packComponents Format.binary64 s 0#11 (BitVec.ofNat 52 m) := rfl
  have hbias : e + Format.binary64.exponentBias + (52 : Nat) = e + 1075 := by
    change e + (1023 : Nat) + (52 : Nat) = _
    omega
  have hbits : m.log2 + 1 = Format.binary64.mantissaBits ↔ m.log2 = 52 := by
    change m.log2 + 1 = 53 ↔ _
    omega
  rw [hpack, hbias]
  simp only [hbits]

/-- **A canonical triple is packed without loss** if its exponent is not too great. -/
theorem decode?_finite (hc : Canonical m e) (he : e ≤ 971) :
    decode? (ofUnpacked (.finite s m e hm)) = some ⟨isMinus s, m, e⟩ := by
  obtain ⟨hlt, hle, hfull⟩ := hc
  have hpack := pack_finite s m e hm
  rw [if_neg (by omega)] at hpack
  by_cases hnormal : 2 ^ 52 ≤ m
  · rw [if_pos ((Nat.log2_eq_iff hm.ne').mpr ⟨hnormal, hlt⟩)] at hpack
    have hfield : (BitVec.ofNat 11 (e + 1075).toNat).toNat = (e + 1075).toNat := by
      rw [BitVec.toNat_ofNat, Nat.mod_eq_of_lt (by omega)]
    have hfraction : (BitVec.ofNat 52 m).toNat = m - 2 ^ 52 := by
      rw [BitVec.toNat_ofNat]
      omega
    rw [decode?_packComponents hpack, hfield, hfraction, if_neg (by omega), if_neg (by omega),
      Nat.add_sub_cancel' hnormal, Int.toNat_of_nonneg (by omega), Int.add_sub_cancel]
  · have hexponent : e = -1074 := hfull.resolve_left hnormal
    have hlog : ¬ m.log2 = 52 := fun h => hnormal ((Nat.log2_eq_iff hm.ne').mp h).1
    rw [if_neg hlog] at hpack
    have hfraction : (BitVec.ofNat 52 m).toNat = m := by
      rw [BitVec.toNat_ofNat, Nat.mod_eq_of_lt (by omega)]
    rw [decode?_packComponents hpack, hfraction, hexponent]
    rfl

theorem decode?_overflow (he : 971 < e) : decode? (ofUnpacked (.finite s m e hm)) = none := by
  have hpack := pack_finite s m e hm
  rw [if_pos (by omega)] at hpack
  rw [decode?_packComponents hpack]
  rfl

/-- The unpacked form of a finite double. -/
theorem unpack_of_decode? {x : Float} {v : Finite} (h : decode? x = some v) :
    (∃ s, x.toModel.unpack = .zero s ∧ v = ⟨isMinus s, 0, -1074⟩) ∨
      ∃ s m e hm, x.toModel.unpack = .finite s m e hm ∧ v = ⟨isMinus s, m, e⟩ := by
  rw [decode?_eq] at h
  cases hx : x.toModel.unpack with
  | zero s =>
    rw [hx] at h
    exact Or.inl ⟨s, rfl, (Option.some.inj h).symm⟩
  | finite s m e hm =>
    rw [hx] at h
    exact Or.inr ⟨s, m, e, hm, rfl, (Option.some.inj h).symm⟩
  | infinity s =>
    rw [hx] at h
    cases h
  | notANumber =>
    rw [hx] at h
    cases h

/-- Decoded doubles are canonical. -/
theorem canonical_of_decode? {x : Float} {v : Finite} (h : decode? x = some v) :
    Canonical v.significand v.exponent ∧ v.exponent ≤ 971 := by
  have hbits : x.toBits.toNat < 2 ^ 64 := x.toBits.toBitVec.isLt
  rw [decode?_bits rfl] at h
  split at h
  · cases h
  split at h
  · cases h
    refine ⟨⟨?_, ?_, Or.inr rfl⟩, ?_⟩ <;> dsimp only <;> omega
  · cases h
    refine ⟨⟨?_, ?_, Or.inl ?_⟩, ?_⟩ <;> dsimp only <;> omega

/-! ## Negation, and doubles that are not finite -/

theorem isMinus_neg (s : Sign) : isMinus (-s) = !isMinus s := by
  cases s <;> rfl

theorem decode?_infinity (s : Sign) : decode? (ofUnpacked (.infinity s)) = none := by
  rw [decode?_packComponents (f := .infinity s) (s := s) (e := -1) (m := 0) rfl]
  rfl

theorem decode?_notANumber : decode? (ofUnpacked .notANumber) = none := by
  decide +kernel

/-- Negation changes the sign alone. -/
theorem decode?_neg (x : Float) :
    decode? (-x) = (decode? x).map fun v => { v with negative := !v.negative } := by
  change decode? (ofUnpacked (.neg x.toModel.unpack)) = _
  cases hx : x.toModel.unpack with
  | finite s m e hm =>
    have hparts : decode? x = some ⟨isMinus s, m, e⟩ := by rw [decode?_eq, hx]; rfl
    obtain ⟨hcanonical, hle⟩ := canonical_of_decode? hparts
    rw [hparts]
    exact (decode?_finite hcanonical hle).trans (by rw [isMinus_neg]; rfl)
  | zero s =>
    rw [decode?_eq x, hx]
    exact (decode?_zero (-s)).trans (by rw [isMinus_neg]; rfl)
  | infinity s =>
    rw [decode?_eq x, hx]
    exact decode?_infinity (-s)
  | notANumber =>
    rw [decode?_eq x, hx]
    exact decode?_notANumber

/-- A double is finite, infinite or not a number. -/
theorem decode?_eq_none_iff {x : Float} : decode? x = none ↔ x.isNaN ∨ x.isInf := by
  change _ ↔ x.toModel.unpack.isNaN ∨ x.toModel.unpack.isInf
  have hneither : ¬ (false = true ∨ false = true) := by decide
  rw [decode?_eq]
  cases x.toModel.unpack with
  | finite s m e hm => exact iff_of_false (Option.some_ne_none _) hneither
  | zero s => exact iff_of_false (Option.some_ne_none _) hneither
  | infinity s => exact iff_of_true rfl (Or.inr rfl)
  | notANumber => exact iff_of_true rfl (Or.inl rfl)

end Straightline.Binary64
