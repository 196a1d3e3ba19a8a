import Straightline.Number.Text

/-!
# Numerals read back

The text of a magnitude is read back as that magnitude, with a minus sign before it or not
(`ofText_magnitudeText`, `ofText_minus_magnitudeText`).  The trailing zeros that are dropped in
writing are the ones that reading puts back to fill four decimals.
-/

namespace Straightline

/-! ## Digits -/

/-- A character of a class is none that lies outside it. -/
theorem Text.ne_of_class {P : Char → Bool} {c d : Char} (hc : P c = true) (hd : P d = false) :
    c ≠ d := by
  rintro rfl
  rw [hc] at hd
  cases hd

theorem Text.decimal?_of_isDigit {c : Char} (h : c.isDigit = true) :
    decimal? c = some (c.toNat - 48) := by
  obtain ⟨_, hle⟩ := Char.isDigit_iff_toNat.mp h
  have h128 : c.toNat < 128 := Nat.lt_of_le_of_lt hle (by decide)
  rw [decimal?, if_pos h128, if_pos h]

theorem Text.isDigit_of_isDigit {c : Char} (h : c.isDigit = true) : isDigit c = true := by
  rw [isDigit, decimal?_of_isDigit h]
  rfl

theorem Text.isSpace_of_isDigit {c : Char} (h : c.isDigit = true) : isSpace c = false := by
  obtain ⟨hge, hle⟩ := Char.isDigit_iff_toNat.mp h
  have hge : 48 ≤ c.toNat := hge
  have hle : c.toNat ≤ 57 := hle
  rw [isSpace, if_pos (by omega)]
  simp only [Bool.or_eq_false_iff, Bool.and_eq_false_iff, decide_eq_false_iff_not]
  omega

/-- A text without white space is left alone when its ends are stripped. -/
theorem Text.strip_of_forall {cs : List Char} (h : ∀ c ∈ cs, isSpace c = false) : strip cs = cs := by
  have hdrop : ∀ ds : List Char, (∀ c ∈ ds, isSpace c = false) → ds.dropWhile isSpace = ds := by
    intro ds hds
    cases ds with
    | nil => rfl
    | cons d ds => exact List.dropWhile_cons_of_neg (by simp [hds d List.mem_cons_self])
  rw [strip, hdrop cs h, hdrop _ fun c hc => h c (List.mem_reverse.mp hc), List.reverse_reverse]

theorem Text.dropWhile_isSpace_concat {c : Char} (h : isSpace c = false) (cs : List Char) :
    (cs ++ [c]).dropWhile isSpace = cs.dropWhile isSpace ++ [c] := by
  rw [List.dropWhile_append]
  split
  · rename_i hempty
    rw [List.isEmpty_iff.mp hempty, List.dropWhile_cons_of_neg (by simp [h])]
    rfl
  · rfl

/-- Of a text that does not begin with white space, only the end is stripped. -/
theorem Text.strip_cons {c : Char} (h : isSpace c = false) (cs : List Char) :
    strip (c :: cs) = c :: (cs.reverse.dropWhile isSpace).reverse := by
  rw [strip, List.dropWhile_cons_of_neg (by simp [h]), List.reverse_cons, dropWhile_isSpace_concat h,
    List.reverse_append]
  rfl

namespace Number

/-- The values of decimal digits. -/
def digitValues (cs : List Char) : List Nat := cs.map fun c => c.toNat - '0'.toNat

theorem decimals?_of_isDigit {cs : List Char} (hne : cs ≠ []) (h : ∀ c ∈ cs, c.isDigit = true) :
    decimals? cs = some (digitValues cs) := by
  have hmap : cs.mapM Text.decimal? = some (digitValues cs) := by
    clear hne
    induction cs with
    | nil => rfl
    | cons c cs ih =>
      rw [List.mapM_cons, Text.decimal?_of_isDigit (h c List.mem_cons_self),
        ih fun d hd => h d (List.mem_cons_of_mem _ hd)]
      rfl
  rw [decimals?, if_neg (by simpa using hne), hmap]

theorem ofDigits_digitValues (cs : List Char) : ofDigits (digitValues cs) = Nat.ofDigitChars 10 cs 0 := by
  rw [ofDigits, digitValues, List.foldl_map]
  rfl

/-! ## Decimals -/

theorem isDigit_of_mem_fourDigits {n : Nat} (h : n < 10000) {c : Char} (hc : c ∈ fourDigits n) :
    c.isDigit = true := by
  simp only [fourDigits, List.mem_cons, List.not_mem_nil, or_false] at hc
  rcases hc with rfl | rfl | rfl | rfl <;> rw [Nat.isDigit_digitChar] <;> exact decide_eq_true (by omega)

theorem ofDigitChars_fourDigits {n : Nat} (h : n < 10000) :
    Nat.ofDigitChars 10 (fourDigits n) 0 = n := by
  have h0 : '0'.toNat = 48 := rfl
  simp only [Nat.ofDigitChars, fourDigits, List.foldl_cons, List.foldl_nil, h0]
  rw [Nat.toNat_digitChar_of_lt_ten (by omega), Nat.toNat_digitChar_of_lt_ten (by omega),
    Nat.toNat_digitChar_of_lt_ten (by omega), Nat.toNat_digitChar_of_lt_ten (by omega)]
  omega

/-- What is dropped from the end of a row of digits is zeros. -/
theorem dropTrailingZeros_append (cs : List Char) :
    dropTrailingZeros cs ++ List.replicate (cs.length - (dropTrailingZeros cs).length) '0' = cs := by
  -- read backwards, the row is split into its leading zeros and the rest
  have hsplit := List.takeWhile_append_dropWhile (p := (· == '0')) (l := cs.reverse)
  have hzeros : cs.reverse.takeWhile (· == '0')
      = List.replicate (cs.reverse.takeWhile (· == '0')).length '0' := by
    refine List.eq_replicate_iff.mpr ⟨rfl, fun c hc => ?_⟩
    exact eq_of_beq (List.all_eq_true.mp List.all_takeWhile c hc)
  have hcs : cs = dropTrailingZeros cs ++ (cs.reverse.takeWhile (· == '0')).reverse := by
    rw [dropTrailingZeros, ← List.reverse_append, hsplit, List.reverse_reverse]
  have hlen := congrArg List.length hcs
  rw [List.length_append, List.length_reverse] at hlen
  have hcount : cs.length - (dropTrailingZeros cs).length
      = (cs.reverse.takeWhile (· == '0')).length := by omega
  rw [hcount]
  rw [hzeros, List.reverse_replicate] at hcs
  exact hcs.symm

theorem mem_of_mem_dropTrailingZeros {cs : List Char} {c : Char} (h : c ∈ dropTrailingZeros cs) :
    c ∈ cs := by
  rw [← dropTrailingZeros_append cs]
  exact List.mem_append_left _ h

theorem length_dropTrailingZeros_le (cs : List Char) : (dropTrailingZeros cs).length ≤ cs.length := by
  have hlen := congrArg List.length (dropTrailingZeros_append cs)
  rw [List.length_append] at hlen
  omega

/-- Some decimal is left, unless all are zeros. -/
theorem dropTrailingZeros_fourDigits_ne_nil {n : Nat} (h : n < 10000) (h0 : n ≠ 0) :
    dropTrailingZeros (fourDigits n) ≠ [] := by
  intro hnil
  have hzeros := dropTrailingZeros_append (fourDigits n)
  rw [hnil] at hzeros
  have hvalue := ofDigitChars_fourDigits h
  rw [← hzeros] at hvalue
  exact h0 (hvalue.symm.trans rfl)

/-- Filling up with zeros gives the decimals back. -/
theorem ofDigits_fill_fourDigits {n : Nat} (h : n < 10000) :
    ofDigits (digitValues (dropTrailingZeros (fourDigits n)) ++
      List.replicate (4 - (dropTrailingZeros (fourDigits n)).length) 0) = n := by
  have hfill : digitValues (dropTrailingZeros (fourDigits n)) ++
      List.replicate (4 - (dropTrailingZeros (fourDigits n)).length) 0
      = digitValues (fourDigits n) := by
    have hzeros := congrArg digitValues (dropTrailingZeros_append (fourDigits n))
    rw [digitValues, List.map_append, List.map_replicate] at hzeros
    exact hzeros
  rw [hfill, ofDigits_digitValues, ofDigitChars_fourDigits h]

/-! ## The text of a magnitude -/

theorem isDigit_of_mem_toDigits {n : Nat} {c : Char} (h : c ∈ Nat.toDigits 10 n) : c.isDigit = true :=
  Nat.isDigit_of_mem_toDigits (by decide) (by decide) h

/-- A magnitude is written as a whole number, or as one with up to four decimals. -/
theorem magnitudeText_cases (n : Nat) :
    (n % 10000 = 0 ∧ magnitudeText n = Nat.toDigits 10 (n / 10000)) ∨
      ∃ fraction, magnitudeText n = Nat.toDigits 10 (n / 10000) ++ '.' :: fraction ∧
        fraction ≠ [] ∧ fraction.length ≤ 4 ∧ (∀ c ∈ fraction, c.isDigit = true) ∧
        ofDigits (digitValues fraction ++ List.replicate (4 - fraction.length) 0) = n % 10000 := by
  have hlt : n % 10000 < 10000 := Nat.mod_lt _ (by decide)
  by_cases h : n % 10000 = 0
  · exact Or.inl ⟨h, by rw [magnitudeText, if_pos h, List.append_nil]⟩
  · refine Or.inr ⟨dropTrailingZeros (fourDigits (n % 10000)), ?_,
      dropTrailingZeros_fourDigits_ne_nil hlt h, length_dropTrailingZeros_le _, ?_,
      ofDigits_fill_fourDigits hlt⟩
    · rw [magnitudeText, if_neg h]
    · exact fun c hc => isDigit_of_mem_fourDigits hlt (mem_of_mem_dropTrailingZeros hc)

theorem mem_magnitudeText {n : Nat} {c : Char} (h : c ∈ magnitudeText n) :
    c.isDigit = true ∨ c = '.' := by
  rcases magnitudeText_cases n with ⟨_, htext⟩ | ⟨fraction, htext, _, _, hdigits, _⟩ <;> rw [htext] at h
  · exact Or.inl (isDigit_of_mem_toDigits h)
  · rcases List.mem_append.mp h with h | h
    · exact Or.inl (isDigit_of_mem_toDigits h)
    · rcases List.mem_cons.mp h with h | h
      · exact Or.inr h
      · exact Or.inl (hdigits c h)

/-- A magnitude begins with a digit. -/
theorem magnitudeText_eq_cons (n : Nat) : ∃ c cs, magnitudeText n = c :: cs ∧ c.isDigit = true := by
  unfold magnitudeText
  cases hw : Nat.toDigits 10 (n / 10000) with
  | nil => exact absurd hw Nat.toDigits_ne_nil
  | cons c cs => exact ⟨c, _, rfl, isDigit_of_mem_toDigits (hw ▸ List.mem_cons_self)⟩

theorem not_mem_of_isDigit {cs : List Char} (h : ∀ c ∈ cs, c.isDigit = true) : '.' ∉ cs :=
  fun hmem => Text.ne_of_class (h '.' hmem) (by decide) rfl

theorem ne_point_of_mem {cs : List Char} (h : '.' ∉ cs) : ∀ c ∈ cs, decide (c ≠ '.') = true :=
  fun _ hc => decide_eq_true fun heq => h (heq ▸ hc)

/-- A decimal without a point is its whole part. -/
theorem splitDecimal?_of_not_mem {whole : List Char} (h : '.' ∉ whole) :
    splitDecimal? whole = (decimals? whole).map (·, []) := by
  have hdrop : whole.dropWhile (fun c => decide (c ≠ '.')) = [] := by
    rw [← List.append_nil whole, List.dropWhile_append_of_pos (ne_point_of_mem h)]
    rfl
  unfold splitDecimal?
  rw [hdrop]

/-- A decimal with a point has a whole part before it and a fraction behind it. -/
theorem splitDecimal?_of_point {whole : List Char} (h : '.' ∉ whole) (fraction : List Char) :
    splitDecimal? (whole ++ '.' :: fraction) =
      (decimals? whole).bind fun w => (decimals? fraction).bind fun f => some (w, f) := by
  have hpoint := ne_point_of_mem h
  unfold splitDecimal?
  rw [List.dropWhile_append_of_pos hpoint, List.takeWhile_append_of_pos hpoint,
    List.dropWhile_cons_of_neg (by decide), List.takeWhile_cons_of_neg (by decide), List.append_nil]
  rfl

theorem splitDecimal?_whole {whole : List Char} (hne : whole ≠ [])
    (hwhole : ∀ c ∈ whole, c.isDigit = true) :
    splitDecimal? whole = some (digitValues whole, []) := by
  rw [splitDecimal?_of_not_mem (not_mem_of_isDigit hwhole), decimals?_of_isDigit hne hwhole]
  rfl

theorem splitDecimal?_fraction {whole fraction : List Char} (hne : whole ≠ [])
    (hwhole : ∀ c ∈ whole, c.isDigit = true) (hne' : fraction ≠ [])
    (hfraction : ∀ c ∈ fraction, c.isDigit = true) :
    splitDecimal? (whole ++ '.' :: fraction) = some (digitValues whole, digitValues fraction) := by
  rw [splitDecimal?_of_point (not_mem_of_isDigit hwhole), decimals?_of_isDigit hne hwhole,
    decimals?_of_isDigit hne' hfraction]
  rfl

/-- **When a decimal has a value**: it has the shape of one, not too many decimals, and a whole part that
is not too long. -/
theorem unitsOfChars_eq_ok {text : String} {cs : List Char} {n : Nat} :
    unitsOfChars text cs = .ok n ↔ ∃ whole fraction, splitDecimal? cs = some (whole, fraction) ∧
      fraction.length ≤ 4 ∧ whole.length ≤ digitLimit ∧ unitsOfDigits whole fraction = n := by
  unfold unitsOfChars
  cases splitDecimal? cs with
  | none => simp
  | some parts =>
    obtain ⟨whole, fraction⟩ := parts
    simp only [Option.some.injEq, Prod.mk.injEq]
    split
    · rename_i hplaces
      refine iff_of_false (by simp) ?_
      rintro ⟨_, _, ⟨rfl, rfl⟩, hle, -⟩
      exact absurd hplaces (Nat.not_lt.mpr hle)
    split
    · rename_i hlong
      refine iff_of_false (by simp) ?_
      rintro ⟨_, _, ⟨rfl, rfl⟩, -, hle, -⟩
      exact absurd hlong (Nat.not_lt.mpr hle)
    · rename_i hplaces hlong
      rw [Except.ok.injEq]
      constructor
      · exact fun h => ⟨whole, fraction, ⟨rfl, rfl⟩, Nat.not_lt.mp hplaces, Nat.not_lt.mp hlong, h⟩
      · rintro ⟨_, _, ⟨rfl, rfl⟩, -, -, h⟩
        exact h

theorem natAbs_raw_le (a : Number) : a.raw.natAbs ≤ 9223372036854775808 := by
  have hmin := a.rawMin_le
  have hmax := a.le_rawMax
  unfold rawMin at hmin
  unfold rawMax at hmax
  omega

/-- The whole part of a number is far from too long to be converted. -/
theorem length_whole_le (a : Number) :
    (digitValues (Nat.toDigits 10 (a.raw.natAbs / 10000))).length ≤ digitLimit := by
  have hle := natAbs_raw_le a
  have hlt : a.raw.natAbs / 10000 < 10 ^ 15 := by omega
  have hlength := (Nat.length_toDigits_le_iff (by decide) (by decide)).mpr hlt
  rw [digitValues, List.length_map]
  exact Nat.le_trans hlength (by decide)

theorem unitsOfChars_magnitudeText (text : String) (a : Number) :
    unitsOfChars text (magnitudeText a.raw.natAbs) = .ok a.raw.natAbs := by
  have hlimit := length_whole_le a
  generalize a.raw.natAbs = n at hlimit ⊢
  have hwhole : ∀ c ∈ Nat.toDigits 10 (n / 10000), c.isDigit = true := fun c => isDigit_of_mem_toDigits
  have hvalue : ofDigits (digitValues (Nat.toDigits 10 (n / 10000))) = n / 10000 := by
    rw [ofDigits_digitValues, Nat.ofDigitChars_ten_toDigits]
  rw [unitsOfChars_eq_ok]
  rcases magnitudeText_cases n with ⟨h, htext⟩ | ⟨fraction, htext, hne, hlen, hdigits, hfill⟩
  · refine ⟨_, [], by rw [htext, splitDecimal?_whole Nat.toDigits_ne_nil hwhole], by decide, hlimit, ?_⟩
    have hzero : ofDigits ([] ++ List.replicate (4 - 0) 0) = 0 := rfl
    rw [unitsOfDigits, hvalue, List.length_nil, hzero]
    omega
  · have hlen' : (digitValues fraction).length = fraction.length := List.length_map _
    refine ⟨_, digitValues fraction,
      by rw [htext, splitDecimal?_fraction Nat.toDigits_ne_nil hwhole hne hdigits],
      by rwa [hlen'], hlimit, ?_⟩
    rw [unitsOfDigits, hvalue, hlen', hfill]
    omega

theorem isSpace_of_mem_magnitudeText {n : Nat} {c : Char} (h : c ∈ magnitudeText n) :
    Text.isSpace c = false := by
  rcases mem_magnitudeText h with h | rfl
  · exact Text.isSpace_of_isDigit h
  · decide

/-- **The magnitude of a number reads back** as the number of its units. -/
theorem ofText_magnitudeText (a : Number) :
    ofText (String.ofList (magnitudeText a.raw.natAbs)) = .ok (ofRaw a.raw.natAbs) := by
  obtain ⟨c, cs, hcs, hc⟩ := magnitudeText_eq_cons a.raw.natAbs
  have hminus : c ≠ '-' := Text.ne_of_class hc (by decide)
  rw [ofText, String.toList_ofList,
    Text.strip_of_forall fun c hc => isSpace_of_mem_magnitudeText hc]
  split
  · rename_i rest hrest
    rw [hcs] at hrest
    exact absurd (List.cons.inj hrest).1 hminus
  · rw [unitsOfChars_magnitudeText]
    rfl

/-- **The magnitude of a number reads back behind a minus sign** as the negated number of its units. -/
theorem ofText_minus_magnitudeText (a : Number) :
    ofText ("-" ++ String.ofList (magnitudeText a.raw.natAbs)) = .ok (ofRaw (-a.raw.natAbs)) := by
  have hchars : ("-" ++ String.ofList (magnitudeText a.raw.natAbs)).toList =
      '-' :: magnitudeText a.raw.natAbs := by
    rw [String.toList_append, String.toList_ofList, String.toList_ofList, List.singleton_append]
  have hstrip : Text.strip ('-' :: magnitudeText a.raw.natAbs) = '-' :: magnitudeText a.raw.natAbs := by
    refine Text.strip_of_forall fun c hc => ?_
    rcases List.mem_cons.mp hc with rfl | hc
    · decide
    · exact isSpace_of_mem_magnitudeText hc
  rw [ofText, hchars, hstrip]
  simp only [unitsOfChars_magnitudeText]
  rfl

/-- **A sign does not decide whether a text is a number**, if the text itself has none. -/
theorem exists_ofText_of_minus {s : String} {c : Char} {cs : List Char} {v : Number}
    (hs : s.toList = c :: cs) (hspace : Text.isSpace c = false) (hminus : c ≠ '-')
    (h : ofText ("-" ++ s) = .ok v) : ∃ u, ofText s = .ok u := by
  have hchars : ("-" ++ s).toList = '-' :: c :: cs := by
    rw [String.toList_append, hs]
    rfl
  have hsigned : Text.strip ('-' :: c :: cs) = '-' :: Text.strip (c :: cs) := by
    rw [Text.strip_cons (by decide), Text.strip_cons hspace, List.reverse_cons,
      Text.dropWhile_isSpace_concat hspace, List.reverse_append]
    rfl
  rw [ofText, hchars, hsigned] at h
  rw [ofText, hs]
  cases hunits : unitsOfChars ("-" ++ s) (Text.strip (c :: cs)) with
  | error error =>
    simp only [hunits] at h
    cases h
  | ok n =>
    refine ⟨ofRaw n, ?_⟩
    split
    · rename_i rest hrest
      rw [Text.strip_cons hspace] at hrest
      exact absurd (List.cons.inj hrest).1 hminus
    · rw [unitsOfChars_eq_ok.mpr (unitsOfChars_eq_ok.mp hunits)]
      rfl

end Number

end Straightline
