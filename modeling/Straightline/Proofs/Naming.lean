import Straightline.Text.Casing
import Straightline.Value

/-!
# The names of vector elements

The elements of a vector live in variables whose names end in an underscore and a number.  Lower-casing
such a name keeps the number: no rule of casing looks past the underscore.  So the elements of one
vector stay apart under lower case (`pairwise_lower_elementNames`), which is what the target language,
blind to case, needs.  They also stay apart from the name of the vector, being longer than it.
-/

namespace Straightline

namespace Text.Casing

/-- An underscore ends the word before it, whatever follows. -/
theorem meetsCased_append_underscore (cs ds : List Char) :
    meetsCased (cs ++ '_' :: ds) = meetsCased (cs ++ ['_']) := by
  have hu : (!isIgnored '_') = true := by decide
  simp only [meetsCased, List.find?_append, List.find?_cons, hu]

theorem lowerAfter_of_isDigit {ds : List Char} (h : ∀ d ∈ ds, d.isDigit = true)
    (before : List Char) : lowerAfter before ds = ds := by
  induction ds generalizing before with
  | nil => rfl
  | cons d ds ih =>
    have hd := h d List.mem_cons_self
    have hle : 48 ≤ d.toNat ∧ d.toNat ≤ 57 := Char.isDigit_iff_toNat.mp hd
    have hsmall : ¬ ('A'.val ≤ d.val ∧ d.val ≤ 'Z'.val) := by
      intro hA
      have : 65 ≤ d.toNat := hA.1
      omega
    have hone : lowerOne d = d := by
      rw [lowerOne, if_pos (by omega)]
      exact dif_neg hsmall
    rw [lowerAfter, if_neg (by omega), if_neg (by omega), hone,
      ih (fun x hx => h x (List.mem_cons_of_mem _ hx))]
    rfl

/-- Digits behind an underscore are left as they are, and do not influence what stands before. -/
theorem lowerAfter_append_underscore {ds : List Char} (h : ∀ d ∈ ds, d.isDigit = true)
    (before cs : List Char) :
    lowerAfter before (cs ++ '_' :: ds) = lowerAfter before (cs ++ ['_']) ++ ds := by
  induction cs generalizing before with
  | nil =>
    simp only [List.nil_append, lowerAfter, lowerAfter_of_isDigit h, List.append_nil]
    rfl
  | cons c cs ih =>
    simp only [List.cons_append, lowerAfter, ih, meetsCased_append_underscore cs ds,
      List.append_assoc]

/-- How long a text is in lower case does not depend on where its words end: only the dotted capital
`I` takes two characters. -/
theorem length_lowerAfter (before cs : List Char) :
    (lowerAfter before cs).length = cs.length + cs.countP fun c => c.toNat = 0x130 := by
  induction cs generalizing before with
  | nil => rfl
  | cons c cs ih =>
    rw [lowerAfter, List.length_append, ih, List.length_cons, List.countP_cons]
    by_cases hsigma : c.toNat = 0x3A3
    · have hdotted : c.toNat ≠ 0x130 := by omega
      rw [if_pos hsigma, if_neg (mt of_decide_eq_true hdotted), List.length_singleton]
      omega
    · rw [if_neg hsigma]
      by_cases hdotted : c.toNat = 0x130
      · rw [if_pos hdotted, if_pos (decide_eq_true hdotted), List.length_cons, List.length_singleton]
        omega
      · rw [if_neg hdotted, if_neg (mt of_decide_eq_true hdotted), List.length_singleton]
        omega

end Text.Casing

theorem toList_elementName (x : String) (i : Nat) :
    (elementName x i).toList = x.toList ++ '_' :: Nat.toDigits 10 i := by
  simp [elementName, toString]

theorem toList_lower_elementName (x : String) (i : Nat) :
    (Text.lower (elementName x i)).toList =
      Text.Casing.lowerAfter [] (x.toList ++ ['_']) ++ Nat.toDigits 10 i := by
  rw [Text.lower, toList_elementName, String.toList_ofList,
    Text.Casing.lowerAfter_append_underscore
      (fun d hd => Nat.isDigit_of_mem_toDigits (by decide) (by decide) hd)]

/-- **The elements of a vector stay apart under lower case.** -/
theorem elementName_index_eq {x : String} {i j : Nat}
    (h : Text.lower (elementName x i) = Text.lower (elementName x j)) : i = j := by
  have hl := congrArg String.toList h
  rw [toList_lower_elementName, toList_lower_elementName] at hl
  have hd : Nat.toDigits 10 i = Nat.toDigits 10 j := List.append_cancel_left hl
  calc i = Nat.ofDigitChars 10 (Nat.toDigits 10 i) 0 := Nat.ofDigitChars_ten_toDigits.symm
    _ = Nat.ofDigitChars 10 (Nat.toDigits 10 j) 0 := by rw [hd]
    _ = j := Nat.ofDigitChars_ten_toDigits

/-- An element of a vector stays apart from the vector under lower case. -/
theorem lower_elementName_ne (x : String) (i : Nat) :
    Text.lower (elementName x i) ≠ Text.lower x := by
  intro h
  have hlen := congrArg (fun y : String => y.toList.length) h
  simp only [Text.lower, String.toList_ofList, Text.Casing.length_lowerAfter, toList_elementName,
    List.length_append, List.length_cons, List.countP_append] at hlen
  omega

namespace Value

theorem length_elementNames (x : String) (i n : Nat) : (elementNames x i n).length = n := by
  induction n generalizing i with
  | zero => rfl
  | succ n ih => rw [elementNames, List.length_cons, ih]

theorem mem_elementNames {x y : String} {i n : Nat} :
    y ∈ elementNames x i n ↔ ∃ k, i ≤ k ∧ k < i + n ∧ y = elementName x k := by
  induction n generalizing i with
  | zero =>
    simp only [elementNames, List.not_mem_nil, false_iff]
    rintro ⟨k, h, h', _⟩
    omega
  | succ n ih =>
    rw [elementNames, List.mem_cons, ih]
    constructor
    · rintro (rfl | ⟨k, h, h', rfl⟩)
      · exact ⟨i, Nat.le_refl i, by omega, rfl⟩
      · exact ⟨k, by omega, by omega, rfl⟩
    · rintro ⟨k, h, h', rfl⟩
      rcases Nat.eq_or_lt_of_le h with rfl | hlt
      · exact Or.inl rfl
      · exact Or.inr ⟨k, hlt, by omega, rfl⟩

theorem pairwise_lower_elementNames (x : String) (i n : Nat) :
    (elementNames x i n).Pairwise fun y z => Text.lower y ≠ Text.lower z := by
  induction n generalizing i with
  | zero => exact List.Pairwise.nil
  | succ n ih =>
    refine List.Pairwise.cons ?_ (ih (i + 1))
    intro z hz hlower
    obtain ⟨k, hk, _, rfl⟩ := mem_elementNames.mp hz
    have := elementName_index_eq hlower
    omega

end Value

end Straightline
