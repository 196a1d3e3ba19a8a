import Mathlib.Tactic.Ring
import Straightline.Proofs.Arithmetic
import Straightline.Proofs.Numerals
import Straightline.Proofs.Steps

/-!
# The text of a number is the shortest

What a number is read from is a *decimal* (`Decimal`): a sign, digits before the point and up to four
behind it, in any script and with any zeros at their ends.  The decimal takes at least as many characters as
the number's own text: as many digits before the point as its whole part needs, as many behind it as its
fraction does, and a minus sign if it is negative (`length_toChars_le`).

This holds of every number that no saturation leads to.  The two ends of the range can be spelt with fewer
characters, by numbers beyond them.
-/

namespace Straightline

/-- The value of a decimal digit, in any script, is a digit. -/
theorem Text.decimal?_lt {c : Char} {d : Nat} (h : decimal? c = some d) : d < 10 := by
  unfold decimal? at h
  split at h
  · split at h
    · rename_i hdigit
      obtain ⟨_, hle⟩ := Char.isDigit_iff_toNat.mp hdigit
      have hle : c.toNat ≤ 57 := hle
      obtain rfl := Option.some.inj h
      omega
    · cases h
  · obtain ⟨z, hz, rfl⟩ := Option.map_eq_some_iff.mp h
    have hrange := List.find?_some hz
    simp only [Bool.and_eq_true, decide_eq_true_eq] at hrange
    omega

theorem Text.length_strip_le (cs : List Char) : (strip cs).length ≤ cs.length := by
  have hend := (List.dropWhile_sublist (p := isSpace) (l := (cs.dropWhile isSpace).reverse)).length_le
  have hfront := (List.dropWhile_sublist (p := isSpace) (l := cs)).length_le
  rw [List.length_reverse] at hend
  rw [strip, List.length_reverse]
  omega

namespace Number

/-! ## Rows of digits -/

/-- **A row of decimal digits.** -/
def AreDigits (ds : List Nat) : Prop := ∀ d ∈ ds, d < 10

theorem foldl_digits (n : Nat) (ds : List Nat) :
    ds.foldl (fun n d => 10 * n + d) n = n * 10 ^ ds.length + ofDigits ds := by
  rw [ofDigits]
  induction ds generalizing n with
  | nil => simp
  | cons d ds ih =>
    rw [List.foldl_cons, ih, List.foldl_cons, ih (10 * 0 + d), List.length_cons]
    ring

theorem ofDigits_cons (d : Nat) (ds : List Nat) :
    ofDigits (d :: ds) = d * 10 ^ ds.length + ofDigits ds := by
  rw [ofDigits, List.foldl_cons, foldl_digits, Nat.mul_zero, Nat.zero_add]

theorem ofDigits_append (ds es : List Nat) :
    ofDigits (ds ++ es) = ofDigits ds * 10 ^ es.length + ofDigits es := by
  rw [ofDigits, List.foldl_append, foldl_digits]
  rfl

theorem ofDigits_zeros (k : Nat) : ofDigits (List.replicate k 0) = 0 := by
  induction k with
  | zero => rfl
  | succ k ih => rw [List.replicate_succ, ofDigits_cons, ih, Nat.zero_mul]

theorem ofDigits_lt {ds : List Nat} (h : AreDigits ds) : ofDigits ds < 10 ^ ds.length := by
  induction ds with
  | nil => decide
  | cons d ds ih =>
    have hd : d < 10 := h d List.mem_cons_self
    have hds := ih fun e he => h e (List.mem_cons_of_mem _ he)
    calc ofDigits (d :: ds) = d * 10 ^ ds.length + ofDigits ds := ofDigits_cons d ds
      _ < (d + 1) * 10 ^ ds.length := by rw [Nat.succ_mul]; omega
      _ ≤ 10 * 10 ^ ds.length := Nat.mul_le_mul_right _ hd
      _ = 10 ^ (d :: ds).length := by rw [List.length_cons, Nat.pow_succ, Nat.mul_comm]

variable {whole fraction : List Nat}

/-- The decimals behind the point, filled up to four, are a multiple of what they were filled up with. -/
theorem ofDigits_fill (fraction : List Nat) (k : Nat) :
    ofDigits (fraction ++ List.replicate k 0) = ofDigits fraction * 10 ^ k := by
  rw [ofDigits_append, ofDigits_zeros, List.length_replicate, Nat.add_zero]

theorem ofDigits_fill_lt (h : AreDigits fraction) (hplaces : fraction.length ≤ 4) :
    ofDigits fraction * 10 ^ (4 - fraction.length) < 10000 := by
  calc ofDigits fraction * 10 ^ (4 - fraction.length)
      < 10 ^ fraction.length * 10 ^ (4 - fraction.length) :=
        Nat.mul_lt_mul_of_pos_right (ofDigits_lt h) (Nat.pow_pos (by decide))
    _ = 10 ^ 4 := by rw [← Nat.pow_add, Nat.add_sub_cancel' hplaces]
    _ = 10000 := by decide

theorem unitsOfDigits_div_mod (whole : List Nat) (h : AreDigits fraction) (hplaces : fraction.length ≤ 4) :
    unitsOfDigits whole fraction / 10000 = ofDigits whole ∧
      unitsOfDigits whole fraction % 10000 = ofDigits fraction * 10 ^ (4 - fraction.length) := by
  have hlt := ofDigits_fill_lt h hplaces
  rw [unitsOfDigits, ofDigits_fill]
  omega

/-! ## How long the parts of a number's text are -/

theorem length_toDigits_le (hne : whole ≠ []) (h : AreDigits whole) :
    (Nat.toDigits 10 (ofDigits whole)).length ≤ whole.length :=
  (Nat.length_toDigits_le_iff (by decide) (List.length_pos_iff.mpr hne)).mpr (ofDigits_lt h)

theorem dropTrailingZeros_zeros (cs : List Char) (k : Nat) :
    dropTrailingZeros (cs ++ List.replicate k '0') = dropTrailingZeros cs := by
  have hzeros : ∀ c ∈ List.replicate k '0', (c == '0') = true := by
    intro c hc
    rw [List.eq_of_mem_replicate hc]
    rfl
  rw [dropTrailingZeros, List.reverse_append, List.reverse_replicate,
    List.dropWhile_append_of_pos hzeros, dropTrailingZeros]

/-- The last decimals of a multiple of a power of ten are zeros. -/
theorem fourDigits_eq {n k : Nat} (hn : n < 10000) (hk : k ≤ 4) (h : 10 ^ (4 - k) ∣ n) :
    fourDigits n = (fourDigits n).take k ++ List.replicate (4 - k) '0' := by
  have hzero : ∀ {m : Nat}, m = 0 → Nat.digitChar m = '0' := by
    rintro _ rfl
    rfl
  obtain rfl | rfl | rfl | rfl | rfl : k = 0 ∨ k = 1 ∨ k = 2 ∨ k = 3 ∨ k = 4 := by omega
  · have h : 10000 ∣ n := h
    rw [fourDigits, hzero (by omega : n / 1000 = 0), hzero (by omega : n / 100 % 10 = 0),
      hzero (by omega : n / 10 % 10 = 0), hzero (by omega : n % 10 = 0)]
    rfl
  · have h : 1000 ∣ n := h
    rw [fourDigits, hzero (by omega : n / 100 % 10 = 0), hzero (by omega : n / 10 % 10 = 0),
      hzero (by omega : n % 10 = 0)]
    rfl
  · have h : 100 ∣ n := h
    rw [fourDigits, hzero (by omega : n / 10 % 10 = 0), hzero (by omega : n % 10 = 0)]
    rfl
  · have h : 10 ∣ n := h
    rw [fourDigits, hzero (by omega : n % 10 = 0)]
    rfl
  · rfl

theorem length_dropTrailingZeros_fourDigits_le {n k : Nat} (hn : n < 10000) (hk : k ≤ 4)
    (h : 10 ^ (4 - k) ∣ n) : (dropTrailingZeros (fourDigits n)).length ≤ k := by
  have hle := length_dropTrailingZeros_le ((fourDigits n).take k)
  rw [fourDigits_eq hn hk h, dropTrailingZeros_zeros]
  exact hle.trans (List.length_take_le _ _)

/-- **No row of digits with the value of a magnitude is shorter than its text.** -/
theorem length_magnitudeText_le (hne : whole ≠ []) (hwhole : AreDigits whole)
    (hfraction : AreDigits fraction) (hplaces : fraction.length ≤ 4) :
    (magnitudeText (unitsOfDigits whole fraction)).length
      ≤ whole.length + if fraction = [] then 0 else 1 + fraction.length := by
  obtain ⟨hdiv, hmod⟩ := unitsOfDigits_div_mod whole hfraction hplaces
  have hdigits := length_toDigits_le hne hwhole
  have hlt := ofDigits_fill_lt hfraction hplaces
  rw [magnitudeText, hdiv, hmod, List.length_append]
  by_cases hzero : ofDigits fraction * 10 ^ (4 - fraction.length) = 0
  · rw [if_pos hzero, List.length_nil]
    omega
  · -- decimals that are not all zeros cannot be left out
    have hfraction : fraction ≠ [] := by
      rintro rfl
      exact hzero rfl
    have hdecimals := length_dropTrailingZeros_fourDigits_le hlt hplaces (Nat.dvd_mul_left _ _)
    rw [if_neg hzero, if_neg hfraction, List.length_cons]
    omega

/-! ## What a number is read from -/

/-- **A decimal as it stands in a text**: its sign, the digits before the point and those behind it. -/
structure Decimal where
  negative : Bool
  whole : List Nat
  fraction : List Nat

namespace Decimal

/-- The raw units that a decimal spells, before saturation. -/
def units (d : Decimal) : Int :=
  if d.negative then -(unitsOfDigits d.whole d.fraction : Int) else unitsOfDigits d.whole d.fraction

/-- How many characters it takes: none for a point without decimals. -/
def width (d : Decimal) : Nat :=
  (if d.negative then 1 else 0) + d.whole.length +
    if d.fraction = [] then 0 else 1 + d.fraction.length

/-- **What a number can be read from.** -/
structure Readable (d : Decimal) : Prop where
  whole_ne_nil : d.whole ≠ []
  whole : AreDigits d.whole
  fraction : AreDigits d.fraction
  places : d.fraction.length ≤ 4

end Decimal

theorem decimals?_eq_some {cs : List Char} {ds : List Nat} (h : decimals? cs = some ds) :
    ds ≠ [] ∧ AreDigits ds ∧ ds.length = cs.length := by
  have hmap : ∀ {cs : List Char} {ds : List Nat}, cs.mapM Text.decimal? = some ds →
      AreDigits ds ∧ ds.length = cs.length := by
    intro cs
    induction cs with
    | nil =>
      rintro ds ⟨⟩
      exact ⟨by simp [AreDigits], rfl⟩
    | cons c cs ih =>
      intro ds h
      rw [List.mapM_cons, Option.bind_eq_bind, Option.bind_eq_some_iff] at h
      obtain ⟨d, hd, h⟩ := h
      rw [Option.bind_eq_bind, Option.bind_eq_some_iff] at h
      obtain ⟨es, hes, h⟩ := h
      obtain rfl := Option.some.inj h
      obtain ⟨hdigits, hlength⟩ := ih hes
      exact ⟨List.forall_mem_cons.mpr ⟨Text.decimal?_lt hd, hdigits⟩, by simp [hlength]⟩
  unfold decimals? at h
  split at h
  · cases h
  · rename_i hne
    obtain ⟨hdigits, hlength⟩ := hmap h
    refine ⟨?_, hdigits, hlength⟩
    rintro rfl
    exact hne (List.isEmpty_iff.mpr (List.length_eq_zero_iff.mp hlength.symm))

/-- The digits of an unsigned decimal, and a point between them, are the whole of its text. -/
theorem splitDecimal?_eq_some {cs : List Char} {ws fs : List Nat}
    (h : splitDecimal? cs = some (ws, fs)) :
    ws ≠ [] ∧ AreDigits ws ∧ AreDigits fs ∧
      cs.length = ws.length + if fs = [] then 0 else 1 + fs.length := by
  unfold splitDecimal? at h
  split at h
  · obtain ⟨ds, hds, heq⟩ := Option.map_eq_some_iff.mp h
    obtain ⟨rfl, rfl⟩ := Prod.mk.inj heq
    obtain ⟨hne, hdigits, hlength⟩ := decimals?_eq_some hds
    exact ⟨hne, hdigits, by simp [AreDigits], by simp [hlength]⟩
  · rename_i point fraction hdrop
    obtain ⟨ds, hds, h⟩ := Option.bind_eq_some_iff.mp h
    obtain ⟨es, hes, h⟩ := Option.bind_eq_some_iff.mp h
    obtain ⟨rfl, rfl⟩ := Prod.mk.inj (Option.some.inj h)
    obtain ⟨hne, hdigits, hlength⟩ := decimals?_eq_some hds
    obtain ⟨hne', hdigits', hlength'⟩ := decimals?_eq_some hes
    have hcs := congrArg List.length
      (List.takeWhile_append_dropWhile (p := fun c => decide (c ≠ '.')) (l := cs))
    rw [hdrop, List.length_append, List.length_cons] at hcs
    rw [if_neg hne']
    exact ⟨hne, hdigits, hdigits', by omega⟩

theorem readable_of_unitsOfChars {text : String} {cs : List Char} {n : Nat} (negative : Bool)
    (h : unitsOfChars text cs = .ok n) :
    ∃ d : Decimal, d.Readable ∧ d.units = (if negative then -(n : Int) else n) ∧
      d.width = (if negative then 1 else 0) + cs.length := by
  obtain ⟨whole, fraction, hsplit, hplaces, -, rfl⟩ := unitsOfChars_eq_ok.mp h
  obtain ⟨hne, hwhole, hfraction, hlength⟩ := splitDecimal?_eq_some hsplit
  refine ⟨⟨negative, whole, fraction⟩, ⟨hne, hwhole, hfraction, hplaces⟩, rfl, ?_⟩
  rw [Decimal.width, hlength, Nat.add_assoc]

/-- **A number is read from a decimal** that takes no more characters than the text. -/
theorem exists_decimal {s : String} {a : Number} (h : ofText s = .ok a) :
    ∃ d : Decimal, d.Readable ∧ ofRaw d.units = a ∧ d.width ≤ s.length := by
  have hread : ∀ (negative : Bool) (rest : List Char),
      (unitsOfChars s rest).map (fun n : Nat => ofRaw (if negative then -n else n)) = .ok a →
      (if negative then 1 else 0) + rest.length ≤ s.length →
      ∃ d : Decimal, d.Readable ∧ ofRaw d.units = a ∧ d.width ≤ s.length := by
    intro negative rest hmap hle
    cases hunits : unitsOfChars s rest with
    | error error =>
      rw [hunits] at hmap
      cases hmap
    | ok n =>
      rw [hunits] at hmap
      obtain ⟨d, hd, hvalue, hwidth⟩ := readable_of_unitsOfChars negative hunits
      exact ⟨d, hd, (congrArg ofRaw hvalue).trans (Except.ok.inj hmap), hwidth.trans_le hle⟩
  have hstrip := Text.length_strip_le s.toList
  rw [String.length_toList] at hstrip
  rw [ofText] at h
  split at h
  · rename_i rest hrest
    rw [hrest, List.length_cons, Nat.add_comm] at hstrip
    exact hread true rest h hstrip
  · refine hread false _ h ?_
    rw [if_neg Bool.false_ne_true, Nat.zero_add]
    exact hstrip

/-- **No decimal of a number's value is shorter than its text.** -/
theorem length_toChars_le {d : Decimal} {a : Number} (hd : d.Readable) (h : d.units = a.raw) :
    a.toChars.length ≤ d.width := by
  have hmagnitude : a.raw.natAbs = unitsOfDigits d.whole d.fraction := by
    rw [← h, Decimal.units]
    split
    · exact (Int.natAbs_neg _).trans (Int.natAbs_natCast _)
    · exact Int.natAbs_natCast _
  have hlength := length_magnitudeText_le hd.whole_ne_nil hd.whole hd.fraction hd.places
  rw [toChars, hmagnitude, List.length_append, Decimal.width, Nat.add_assoc]
  refine Nat.add_le_add ?_ hlength
  -- a decimal without a sign is not negative
  by_cases hsign : d.negative = true
  · rw [if_pos hsign]
    split
    · exact Nat.le_refl 1
    · exact Nat.zero_le 1
  · rw [Decimal.units, if_neg hsign] at h
    have hnonneg : ¬ a.raw < 0 := by omega
    rw [if_neg hnonneg]
    exact Nat.zero_le _

/-! ## Texts of numbers -/

/-- **The text of a number reads back** as it. -/
theorem ofText_ofList_toChars (a : Number) : ofText (String.ofList a.toChars) = .ok a := by
  by_cases hneg : a.raw < 0
  · have htext : String.ofList a.toChars = "-" ++ String.ofList (magnitudeText a.raw.natAbs) := by
      rw [toChars, if_pos hneg, String.ofList_append]
    have hraw : -(a.raw.natAbs : Int) = a.raw := by omega
    rw [htext, ofText_minus_magnitudeText, hraw, ofRaw_raw]
  · have hraw : (a.raw.natAbs : Int) = a.raw := by omega
    rw [toChars, if_neg hneg, List.nil_append, ofText_magnitudeText, hraw, ofRaw_raw]

/-- A number strictly within the range is not the outcome of saturation. -/
theorem eq_raw_of_ofRaw {n : Int} {a : Number} (h : ofRaw n = a) (hlow : least < a)
    (hhigh : a < greatest) : n = a.raw := by
  have hlow : rawMin < a.raw := hlow
  have hhigh : a.raw < rawMax := hhigh
  by_cases hmin : n < rawMin
  · have hraw : (ofRaw n).raw = rawMin := by rw [ofRaw, dif_pos hmin]
    rw [h] at hraw
    omega
  by_cases hmax : rawMax < n
  · have hraw : (ofRaw n).raw = rawMax := by rw [ofRaw, dif_neg hmin, dif_pos hmax]
    rw [h] at hraw
    omega
  · rw [← h, raw_ofRaw (Int.not_lt.mp hmin) (Int.not_lt.mp hmax)]

/-- **The text of a number is exact and the shortest**: it reads back as the number, and no text that reads
as the number has fewer characters, unless the number is an end of the range. -/
theorem toText_exact_shortest (a : Number) :
    ofText a.toText = .ok a ∧
      (least < a → a < greatest → ∀ s, ofText s = .ok a → a.toText.length ≤ s.length) := by
  refine ⟨ofText_ofList_toChars a, ?_⟩
  intro hlow hhigh s hs
  obtain ⟨d, hd, hvalue, hwidth⟩ := exists_decimal hs
  have hunits : d.units = a.raw := eq_raw_of_ofRaw hvalue hlow hhigh
  rw [toText, String.length_ofList]
  exact (length_toChars_le hd hunits).trans hwidth

/-- A negative fraction, read from a text with a blank and zeros to spare; and both ends of the range. -/
theorem toText_exact_shortest_padded :
    least < ofRaw (-500) ∧ ofRaw (-500) < greatest ∧ ofText " -00.0500" = .ok (ofRaw (-500)) ∧
      (ofRaw (-500)).toText = "-0.05" ∧ (ofRaw (-500)).toText.length ≤ " -00.0500".length ∧
      ofText least.toText = .ok least ∧ ofText greatest.toText = .ok greatest := by
  have hlow : least < ofRaw (-500) := by decide
  have hhigh : ofRaw (-500) < greatest := by decide
  have hread : ofText " -00.0500" = .ok (ofRaw (-500)) := by decide +kernel
  exact ⟨hlow, hhigh, hread, by decide +kernel,
    (toText_exact_shortest (ofRaw (-500))).2 hlow hhigh _ hread,
    (toText_exact_shortest least).1, (toText_exact_shortest greatest).1⟩

/-- An end of the range has shorter spellings, by numbers beyond it. -/
example : ofText "1000000000000000" = .ok greatest ∧ greatest.toText = "922337203685477.5807" := by
  decide +kernel

end Number

end Straightline
