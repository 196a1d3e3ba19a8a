import Mathlib.Data.List.Basic
import Straightline.Proofs.Brevity
import Straightline.Proofs.Tiling

/-!
# Numerals that are not read

The lexer splits off as a numeral what looks like one: digits of any kind and, behind a point, possibly
more of them.  Not every numeral spells a number.  `Misspelt` lists what can be wrong with it.  Nor is
every numeral that spells a number read as one: its whole part may have more digits than are converted
(`Oversized`).

`numeral_iff` says that nothing else can happen: a numeral is refused exactly if it is misspelt, given up
exactly if it is oversized, and read otherwise, with a minus sign before it or not.
-/

namespace Straightline

namespace Text

/-- What holds of the characters of some ranges is checked for one after the other. -/
theorem Ranges.forall_of_contains {P : Char → Bool} {rs : Ranges} {c : Char} (h : rs.contains c = true)
    (hall : rs.all (fun r => (List.range' r.1 (r.2 + 1 - r.1)).all fun n => P (Char.ofNat n)) = true) :
    P c = true := by
  obtain ⟨r, hr, hc⟩ := List.any_eq_true.mp h
  simp only [Bool.and_eq_true, decide_eq_true_eq] at hc
  have hrange := List.all_eq_true.mp (List.all_eq_true.mp hall r hr)
  have hmem : c.toNat ∈ List.range' r.1 (r.2 + 1 - r.1) := by
    rw [List.mem_range'_1]
    omega
  have hchar := hrange c.toNat hmem
  rwa [Char.ofNat_toNat] at hchar

/-- No white space is a digit. -/
theorem isSpace_eq_false_of_digit {c : Char} (h : isDigit c = true) : isSpace c = false := by
  by_contra hspace
  have hranges : Ranges.contains ((9, 13) :: (28, 32) :: Space.beyondAscii) c = true := by
    rw [Bool.not_eq_false] at hspace
    unfold isSpace at hspace
    split at hspace
    · simp [Ranges.contains] at hspace ⊢
      omega
    · simp only [Ranges.contains, List.any_cons, Bool.or_eq_true]
      exact Or.inr (Or.inr hspace)
  have hdigit := Ranges.forall_of_contains (P := fun c => !isDigit c) hranges (by decide)
  simp [h] at hdigit

end Text

namespace Number

open Lexer

variable {cs whole fraction text : List Char}

/-- **What can be wrong with a numeral.** -/
inductive Misspelt : List Char → Prop
  /-- No digit stands behind its point. -/
  | trailingPoint (whole : List Char) : Misspelt (whole ++ ['.'])
  /-- One of its digits has no decimal value. -/
  | figure {cs : List Char} {c : Char} (hc : c ∈ cs) (hdigit : Text.isDigit c = true)
      (h : Text.decimal? c = none) : Misspelt cs
  /-- It has more decimals than a number can hold. -/
  | places (whole : List Char) {fraction : List Char} (h : 4 < fraction.length) :
      Misspelt (whole ++ '.' :: fraction)

/-- The digits before the point of a numeral. -/
def wholePart (cs : List Char) : List Char := cs.takeWhile (· ≠ '.')

/-- **A numeral that is spelled right and too long**: before its point there are `n` digits, more than
are converted. -/
structure Oversized (cs : List Char) (n : Nat) : Prop where
  spelt : ¬ Misspelt cs
  length_whole : (wholePart cs).length = n
  digitLimit_lt : digitLimit < n

/-- **What comes of a numeral**, by how it is spelled. -/
def AsSpelt {α : Type} (cs : List Char) : Except TextError α → Prop
  | .ok _ => ¬ Misspelt cs ∧ ¬ ∃ n, Oversized cs n
  | .error (.format _) => Misspelt cs
  | .error (.oversized n) => Oversized cs n

theorem AsSpelt.map {α β : Type} {r : Except TextError α} (h : AsSpelt cs r) (f : α → β) :
    AsSpelt cs (r.map f) := by
  match r, h with
  | .ok _, h => exact h
  | .error (.format _), h => exact h
  | .error (.oversized _), h => exact h

/-! ## Numerals by their parts -/

/-- A row of digits none of which is a mere figure. -/
def Decimals (cs : List Char) : Prop := ∀ c ∈ cs, Text.decimal? c ≠ none

theorem exists_decimals?_iff (cs : List Char) :
    (∃ ds, decimals? cs = some ds) ↔ cs ≠ [] ∧ Decimals cs := by
  have hmap : ∀ cs : List Char, (∃ ds, cs.mapM Text.decimal? = some ds) ↔ Decimals cs := by
    intro cs
    induction cs with
    | nil => simp [Decimals]
    | cons c cs ih =>
      have hcons : Decimals (c :: cs) ↔ Text.decimal? c ≠ none ∧ Decimals cs := List.forall_mem_cons
      rw [hcons, ← ih, List.mapM_cons]
      cases Text.decimal? c with
      | none => simp
      | some d =>
        cases cs.mapM Text.decimal? with
        | none => simp
        | some ds => simp
  cases cs with
  | nil => simp [decimals?]
  | cons c cs => simpa [decimals?] using hmap (c :: cs)

/-- A row of digits that is not converted holds a figure. -/
theorem exists_figure (hne : cs ≠ []) (h : decimals? cs = none) : ∃ c ∈ cs, Text.decimal? c = none := by
  by_contra hnone
  simp only [not_exists, not_and] at hnone
  obtain ⟨ds, hds⟩ := (exists_decimals?_iff cs).mpr ⟨hne, hnone⟩
  rw [h] at hds
  cases hds

/-- **A numeral with too many decimals is refused**, whatever its whole part; any other one is given up if
its whole part is too long. -/
theorem asSpelt_of_splitDecimal? {ws fs : List Nat} (text : String)
    (hsplit : splitDecimal? cs = some (ws, fs)) (hwhole : (wholePart cs).length = ws.length)
    (hmisspelt : Misspelt cs ↔ 4 < fs.length) : AsSpelt cs (unitsOfChars text cs) := by
  unfold unitsOfChars
  rw [hsplit]
  dsimp only
  split
  · rename_i hplaces
    exact hmisspelt.mpr hplaces
  · rename_i hplaces
    have hspelt : ¬ Misspelt cs := fun h => hplaces (hmisspelt.mp h)
    split
    · rename_i hlong
      exact ⟨hspelt, hwhole, hlong⟩
    · rename_i hshort
      refine ⟨hspelt, ?_⟩
      rintro ⟨n, hover⟩
      have hlength := hover.length_whole
      have hlimit := hover.digitLimit_lt
      omega

theorem asSpelt_of_shape (text : String) (hsplit : splitDecimal? cs = none) (h : Misspelt cs) :
    AsSpelt cs (unitsOfChars text cs) := by
  unfold unitsOfChars
  rw [hsplit]
  exact h

/-! ## Numerals as they are split off a text -/

theorem not_mem_of_digits (h : ∀ c ∈ cs, Text.isDigit c = true) : '.' ∉ cs :=
  fun hmem => Text.ne_of_class (h '.' hmem) (by decide) rfl

theorem wholePart_of_not_mem (h : '.' ∉ whole) : wholePart whole = whole := by
  rw [wholePart, ← List.append_nil whole, List.takeWhile_append_of_pos (ne_point_of_mem h),
    List.takeWhile_nil, List.append_nil]

theorem wholePart_of_point (h : '.' ∉ whole) : wholePart (whole ++ '.' :: fraction) = whole := by
  rw [wholePart, List.takeWhile_append_of_pos (ne_point_of_mem h),
    List.takeWhile_cons_of_neg (by decide), List.append_nil]

/-- A numeral without a point is misspelt only by a figure. -/
theorem misspelt_whole_iff (h : ∀ c ∈ whole, Text.isDigit c = true) :
    Misspelt whole ↔ ∃ c ∈ whole, Text.decimal? c = none := by
  have hpoint := not_mem_of_digits h
  constructor
  · intro hmisspelt
    cases hmisspelt with
    | trailingPoint w => exact absurd (List.mem_append_right _ List.mem_cons_self) hpoint
    | figure hc _ hnone => exact ⟨_, hc, hnone⟩
    | places w _ => exact absurd (List.mem_append_right _ List.mem_cons_self) hpoint
  · rintro ⟨c, hc, hnone⟩
    exact .figure hc (h c hc) hnone

/-- A row of digits that is too long is nothing else but that. -/
theorem oversized_digits (h : ∀ c ∈ cs, c.isDigit = true) (hlong : digitLimit < cs.length) :
    Oversized cs cs.length := by
  have hdigits : ∀ c ∈ cs, Text.isDigit c = true := fun c hc => Text.isDigit_of_isDigit (h c hc)
  refine ⟨?_, by rw [wholePart_of_not_mem (not_mem_of_digits hdigits)], hlong⟩
  rw [misspelt_whole_iff hdigits]
  rintro ⟨c, hc, hnone⟩
  rw [Text.decimal?_of_isDigit (h c hc)] at hnone
  cases hnone

/-- A numeral with a point is misspelt by a figure on one side of it, or by how many digits stand
behind it. -/
theorem misspelt_point_iff (hwhole : ∀ c ∈ whole, Text.isDigit c = true)
    (hfraction : ∀ c ∈ fraction, Text.isDigit c = true) :
    Misspelt (whole ++ '.' :: fraction) ↔ (∃ c ∈ whole, Text.decimal? c = none) ∨
      (∃ c ∈ fraction, Text.decimal? c = none) ∨ fraction = [] ∨ 4 < fraction.length := by
  have hpoint := not_mem_of_digits hwhole
  have hpoint' := not_mem_of_digits hfraction
  constructor
  · intro hmisspelt
    -- there is only one point to divide the numeral at
    generalize htext : whole ++ '.' :: fraction = text at hmisspelt
    cases hmisspelt with
    | trailingPoint w =>
      obtain ⟨-, -, hnil⟩ := (List.append_cons_inj_of_notMem hpoint hpoint').mp htext
      exact Or.inr (Or.inr (Or.inl hnil))
    | @figure _ c hc hdigit hnone =>
      rw [← htext, List.mem_append, List.mem_cons] at hc
      rcases hc with hc | rfl | hc
      · exact Or.inl ⟨c, hc, hnone⟩
      · exact absurd hdigit (by decide)
      · exact Or.inr (Or.inl ⟨c, hc, hnone⟩)
    | places w hlong =>
      obtain ⟨-, -, rfl⟩ := (List.append_cons_inj_of_notMem hpoint hpoint').mp htext
      exact Or.inr (Or.inr (Or.inr hlong))
  · rintro (⟨c, hc, hnone⟩ | ⟨c, hc, hnone⟩ | rfl | hlong)
    · exact .figure (List.mem_append_left _ hc) (hwhole c hc) hnone
    · exact .figure (List.mem_append_right _ (List.mem_cons_of_mem _ hc)) (hfraction c hc) hnone
    · exact .trailingPoint whole
    · exact .places whole hlong

theorem not_exists_figure {ds : List Nat} (h : decimals? cs = some ds) :
    ¬ ∃ c ∈ cs, Text.decimal? c = none := by
  rintro ⟨c, hc, hnone⟩
  exact ((exists_decimals?_iff cs).mp ⟨ds, h⟩).2 c hc hnone

theorem asSpelt_whole (text : String) (hne : whole ≠ []) (h : ∀ c ∈ whole, Text.isDigit c = true) :
    AsSpelt whole (unitsOfChars text whole) := by
  have hpoint := not_mem_of_digits h
  have hsplit := splitDecimal?_of_not_mem hpoint
  cases hw : decimals? whole with
  | none =>
    rw [hw] at hsplit
    exact asSpelt_of_shape text hsplit ((misspelt_whole_iff h).mpr (exists_figure hne hw))
  | some ws =>
    rw [hw] at hsplit
    obtain ⟨-, -, hlength⟩ := decimals?_eq_some hw
    refine asSpelt_of_splitDecimal? text hsplit (by rw [wholePart_of_not_mem hpoint, hlength]) ?_
    rw [misspelt_whole_iff h]
    exact iff_of_false (not_exists_figure hw) (by simp)

theorem asSpelt_point (text : String) (hne : whole ≠ []) (hwhole : ∀ c ∈ whole, Text.isDigit c = true)
    (hfraction : ∀ c ∈ fraction, Text.isDigit c = true) :
    AsSpelt (whole ++ '.' :: fraction) (unitsOfChars text (whole ++ '.' :: fraction)) := by
  have hpoint := not_mem_of_digits hwhole
  have hsplit := splitDecimal?_of_point hpoint fraction
  have hmisspelt := misspelt_point_iff hwhole hfraction
  cases hw : decimals? whole with
  | none =>
    rw [hw] at hsplit
    exact asSpelt_of_shape text hsplit (hmisspelt.mpr (Or.inl (exists_figure hne hw)))
  | some ws =>
    obtain ⟨-, -, hlength⟩ := decimals?_eq_some hw
    cases hf : decimals? fraction with
    | none =>
      rw [hw, hf] at hsplit
      refine asSpelt_of_shape text hsplit (hmisspelt.mpr (Or.inr ?_))
      by_cases hnil : fraction = []
      · exact Or.inr (Or.inl hnil)
      · exact Or.inl (exists_figure hnil hf)
    | some fs =>
      rw [hw, hf] at hsplit
      obtain ⟨-, -, hlength'⟩ := decimals?_eq_some hf
      refine asSpelt_of_splitDecimal? text hsplit (by rw [wholePart_of_point hpoint, hlength]) ?_
      have hne' : fraction ≠ [] := ((exists_decimals?_iff fraction).mp ⟨fs, hf⟩).1
      rw [hmisspelt, hlength']
      simp [not_exists_figure hw, not_exists_figure hf, hne']

/-- **A numeral comes to what its spelling says.** -/
theorem asSpelt_unitsOfChars (text : String) (h : Spells .number cs) :
    AsSpelt cs (unitsOfChars text cs) := by
  obtain ⟨whole, hne, hwhole, rfl | ⟨fraction, hfraction, rfl⟩⟩ := h
  · exact asSpelt_whole text hne hwhole
  · exact asSpelt_point text hne hwhole hfraction

theorem isSpace_of_spells (h : Spells .number text) : ∀ c ∈ text, Text.isSpace c = false := by
  obtain ⟨whole, -, hwhole, rfl | ⟨fraction, hfraction, rfl⟩⟩ := h
  · exact fun c hc => Text.isSpace_eq_false_of_digit (hwhole c hc)
  · intro c hc
    rcases List.mem_append.mp hc with hc | hc
    · exact Text.isSpace_eq_false_of_digit (hwhole c hc)
    · rcases List.mem_cons.mp hc with rfl | hc
      · decide
      · exact Text.isSpace_eq_false_of_digit (hfraction c hc)

theorem exists_cons_of_spells (h : Spells .number text) : ∃ c cs, text = c :: cs ∧ c ≠ '-' := by
  obtain ⟨whole, hne, hwhole, htext⟩ := h
  obtain ⟨c, cs, rfl⟩ := List.exists_cons_of_ne_nil hne
  have hminus : c ≠ '-' := Text.ne_of_class (hwhole c List.mem_cons_self) (by decide)
  rcases htext with rfl | ⟨fraction, -, rfl⟩
  · exact ⟨c, cs, rfl, hminus⟩
  · exact ⟨c, cs ++ '.' :: fraction, rfl, hminus⟩

/-- A numeral comes to what its spelling says, with a minus sign before it or not. -/
theorem asSpelt_ofText {s : String} (h : Spells .number s.toList) (negative : Bool) :
    AsSpelt s.toList (ofText (if negative then "-" ++ s else s)) := by
  have hspace := isSpace_of_spells h
  cases negative with
  | false =>
    rw [if_neg (by decide), ofText, Text.strip_of_forall hspace]
    obtain ⟨c, cs, hcs, hminus⟩ := exists_cons_of_spells h
    split
    · rename_i rest hrest
      rw [hcs] at hrest
      exact absurd (List.cons.inj hrest).1 hminus
    · exact (asSpelt_unitsOfChars s h).map _
  | true =>
    have hchars : ("-" ++ s).toList = '-' :: s.toList := String.toList_append
    have hstrip : Text.strip ('-' :: s.toList) = '-' :: s.toList :=
      Text.strip_of_forall (List.forall_mem_cons.mpr ⟨by decide, hspace⟩)
    rw [if_pos rfl, ofText, hchars, hstrip]
    exact (asSpelt_unitsOfChars ("-" ++ s) h).map _

end Number

namespace Grammar

open Lexer Number

theorem spells_of_scanned {t : Token} (h : Scanned t) (hkind : t.kind = .number) :
    Spells .number t.text.toList := by
  obtain ⟨c, rest, l, hspace, hl, hkind', htext⟩ := h
  rw [htext, String.toList_ofList, ← hkind, hkind']
  exact spells_of_lexeme? hspace hl

/-- **What comes of a numeral of a text**: it is read, refused for its spelling, or given up for its
length, whether it has a sign or not. -/
theorem numeral_iff {t : Token} (h : Scanned t) (hkind : t.kind = .number) (negative : Bool) :
    ((∃ v, numeral negative t = .ok v) ↔
        ¬ Misspelt t.text.toList ∧ ¬ ∃ n, Oversized t.text.toList n) ∧
      ((∃ e, numeral negative t = .error (.parse (.number e t.position))) ↔ Misspelt t.text.toList) ∧
      ∀ n, numeral negative t = .error (.oversized n) ↔ Oversized t.text.toList n := by
  have hspelt := asSpelt_ofText (spells_of_scanned h hkind) negative
  unfold numeral
  cases hr : ofText (if negative then "-" ++ t.text else t.text) with
  | ok v =>
    rw [hr] at hspelt
    obtain ⟨hspelt, hshort⟩ := hspelt
    exact ⟨iff_of_true ⟨v, rfl⟩ ⟨hspelt, hshort⟩, iff_of_false (by rintro ⟨e, ⟨⟩⟩) hspelt,
      fun n => iff_of_false (by rintro ⟨⟩) fun hover => hshort ⟨n, hover⟩⟩
  | error error =>
    rw [hr] at hspelt
    cases error with
    | format e =>
      refine ⟨iff_of_false (by rintro ⟨v, ⟨⟩⟩) fun h => h.1 hspelt, iff_of_true ⟨e, rfl⟩ hspelt,
        fun n => iff_of_false (by rintro ⟨⟩) fun hover => hover.spelt hspelt⟩
    | oversized m =>
      have hover : Oversized t.text.toList m := hspelt
      refine ⟨iff_of_false (by rintro ⟨v, ⟨⟩⟩) fun h => h.2 ⟨m, hover⟩,
        iff_of_false (by rintro ⟨e, ⟨⟩⟩) hover.spelt, fun n => ?_⟩
      constructor
      · rintro ⟨⟩
        exact hover
      · intro hover'
        rw [← hover.length_whole, hover'.length_whole]
        rfl

end Grammar

end Straightline
