import Mathlib.Data.List.Forall2
import Straightline.Proofs.Dependencies
import Straightline.Target.Layout

/-!
# Line packing is optimal

A program's text is its statements' texts divided into lines, and nothing is lost by the division
(`flatten_pack`).  A line *fits* if it holds a single text or keeps to the limit.  Filling each line as far
as it goes leaves only lines that fit (`fits_pack`), and no division into lines that fit has fewer lines
(`length_pack_le`).

That filling cannot be beaten is shown text by text, against any other division: as long as the other has
not ended more lines, its current line holds all that ours holds.  So when ours has no room for the next
text, the other has to end its line as well (`length_packAfter_le`).
-/

namespace Straightline.Target

/-! ## Lines -/

namespace Layout

variable {limit : Int} {text : List Char} {line more texts : List (List Char)}
  {lines rest : List (List (List Char))}

/-- One blank parts the texts of a line from those behind them. -/
theorem length_lineText_append (h : line ≠ []) (h' : more ≠ []) :
    (lineText (line ++ more)).length = (lineText line).length + 1 + (lineText more).length := by
  induction line with
  | nil => exact absurd rfl h
  | cons text line ih =>
    cases line with
    | nil =>
      rw [List.singleton_append, lineText_cons text h', lineText_singleton, List.length_append,
        List.length_cons]
      omega
    | cons next line =>
      rw [List.cons_append, lineText_cons text (by simp), lineText_cons text (by simp),
        List.length_append, List.length_append, List.length_cons, List.length_cons, ih (by simp)]
      omega

theorem length_lineText_le_append (line more : List (List Char)) :
    (lineText line).length ≤ (lineText (line ++ more)).length := by
  by_cases hline : line = []
  · rw [hline]
    exact Nat.zero_le _
  by_cases hmore : more = []
  · simp [hmore]
  · rw [length_lineText_append hline hmore]
    omega

/-- **A line fits** if it holds no more than one text, or keeps to the limit. -/
def Fits (limit : Int) (line : List (List Char)) : Prop :=
  2 ≤ line.length → (lineText line).length ≤ limit

theorem fits_singleton (limit : Int) (text : List Char) : Fits limit [text] := by
  intro h
  rw [List.length_singleton] at h
  omega

/-- What stands behind a text on a line that fits. -/
theorem Fits.of_ne_nil (h : Fits limit (text :: line)) (hne : line ≠ []) :
    (lineText ([text] ++ line)).length ≤ limit := by
  have hpos := List.length_pos_iff.mpr hne
  exact h (by rw [List.length_cons]; omega)

theorem Fits.tail (h : Fits limit (text :: line)) : Fits limit line := by
  intro hline
  have hne : line ≠ [] := by
    rintro rfl
    cases hline
  have hlen := h (Nat.le_succ_of_le hline)
  rw [lineText_cons text hne, List.length_append, List.length_cons] at hlen
  omega

/-! ## Filling a line -/

theorem flatten_packAfter (limit : Int) (line : List (List Char)) (width : Nat)
    (texts : List (List Char)) : (packAfter limit line width texts).flatten = line.reverse ++ texts := by
  induction texts generalizing line width with
  | nil => simp [packAfter]
  | cons text texts ih =>
    rw [packAfter]
    split
    · rw [List.flatten_cons, ih, List.reverse_singleton, List.singleton_append]
    · rw [ih, List.reverse_cons, List.append_assoc, List.singleton_append]

theorem ne_nil_of_mem_packAfter {width : Nat} (hne : line ≠ []) :
    ∀ l ∈ packAfter limit line width texts, l ≠ [] := by
  have hreverse : ∀ {line : List (List Char)}, line ≠ [] → line.reverse ≠ [] :=
    fun h => List.reverse_ne_nil_iff.mpr h
  induction texts generalizing line width with
  | nil =>
    rw [packAfter]
    exact List.forall_mem_singleton.mpr (hreverse hne)
  | cons text texts ih =>
    rw [packAfter]
    split
    · exact List.forall_mem_cons.mpr ⟨hreverse hne, ih (List.cons_ne_nil _ _)⟩
    · exact ih (List.cons_ne_nil _ _)

/-- The width of a line that takes one more text. -/
theorem length_lineText_concat (hne : line ≠ []) (text : List Char) :
    (lineText (text :: line).reverse).length = (lineText line.reverse).length + 1 + text.length := by
  rw [List.reverse_cons, length_lineText_append (List.reverse_ne_nil_iff.mpr hne) (by simp),
    lineText_singleton]

theorem fits_packAfter (texts : List (List Char)) (hne : line ≠ []) (hfits : Fits limit line.reverse) :
    ∀ l ∈ packAfter limit line (lineText line.reverse).length texts, Fits limit l := by
  induction texts generalizing line with
  | nil =>
    rw [packAfter]
    exact List.forall_mem_singleton.mpr hfits
  | cons text texts ih =>
    have hwidth := length_lineText_concat hne text
    rw [packAfter]
    split
    · refine List.forall_mem_cons.mpr ⟨hfits, ?_⟩
      have hnext := ih (List.cons_ne_nil text []) (fits_singleton limit text)
      rw [List.reverse_singleton, lineText_singleton] at hnext
      exact hnext
    · rename_i hroom
      rw [← hwidth]
      refine ih (List.cons_ne_nil _ _) fun _ => ?_
      rw [hwidth]
      push_cast
      omega

/-- **Filling a line first costs no lines.**  Another division of the texts puts those of `ahead` on its
current line and goes on with the lines of `rest`.  If there are any in `ahead`, then its current line holds
what ours holds, so that they also fit behind ours. -/
theorem length_packAfter_le {ahead : List (List Char)} (hne : line ≠ [])
    (htexts : texts = ahead ++ rest.flatten)
    (hahead : ahead ≠ [] → (lineText (line.reverse ++ ahead)).length ≤ limit)
    (hrest : ∀ l ∈ rest, Fits limit l) :
    (packAfter limit line (lineText line.reverse).length texts).length ≤ 1 + rest.length := by
  induction texts generalizing line ahead rest with
  | nil =>
    rw [packAfter, List.length_singleton]
    omega
  | cons text texts ih =>
    have hwidth := length_lineText_concat hne text
    have hreverse : line.reverse ≠ [] := List.reverse_ne_nil_iff.mpr hne
    rw [packAfter]
    cases ahead with
    | cons next ahead =>
      -- the other division puts the text on its current line, so ours has room for it
      obtain ⟨rfl, htail⟩ := List.cons.inj htexts
      have hwhole := hahead (List.cons_ne_nil _ _)
      have hlen := length_lineText_le_append (line.reverse ++ [text]) ahead
      rw [List.append_assoc, List.singleton_append, ← List.reverse_cons, hwidth] at hlen
      rw [if_neg (by omega), ← hwidth]
      refine ih (List.cons_ne_nil _ _) htail (fun _ => ?_) hrest
      rw [List.reverse_cons, List.append_assoc]
      exact hwhole
    | nil =>
      -- the other division ends its line here; lines without a text only lengthen it
      obtain ⟨skipped, after, lines, rfl, _, rfl⟩ := List.flatten_eq_cons_iff.mp htexts.symm
      have hafter : Fits limit (text :: after) := hrest _ (by simp)
      have hlines : ∀ l ∈ lines, Fits limit l := fun l hl => hrest l (by simp [hl])
      rw [List.length_append, List.length_cons]
      split
      · have hnext := ih (List.cons_ne_nil text []) rfl hafter.of_ne_nil hlines
        rw [List.reverse_singleton, lineText_singleton] at hnext
        rw [List.length_cons]
        omega
      · have hflatten : after ++ lines.flatten = [] ++ (after :: lines).flatten := rfl
        have hmore := ih (List.cons_ne_nil text line) hflatten
          (fun h => absurd rfl h) (List.forall_mem_cons.mpr ⟨hafter.tail, hlines⟩)
        rw [hwidth, List.length_cons] at hmore
        omega

/-! ## Packing -/

theorem flatten_pack (limit : Int) (texts : List (List Char)) : (pack limit texts).flatten = texts := by
  cases texts with
  | nil => rfl
  | cons text texts => exact flatten_packAfter limit [text] text.length texts

theorem ne_nil_of_mem_pack (limit : Int) (texts : List (List Char)) :
    ∀ line ∈ pack limit texts, line ≠ [] := by
  cases texts with
  | nil => simp [pack]
  | cons text texts => exact ne_nil_of_mem_packAfter (List.cons_ne_nil text [])

/-- **Packing keeps to the limit** wherever it can. -/
theorem fits_pack (limit : Int) (texts : List (List Char)) :
    ∀ line ∈ pack limit texts, Fits limit line := by
  cases texts with
  | nil => simp [pack]
  | cons text texts =>
    have hfits := fits_packAfter texts (List.cons_ne_nil text []) (fits_singleton limit text)
    rw [List.reverse_singleton, lineText_singleton] at hfits
    exact hfits

/-- **No other division has fewer lines.** -/
theorem length_pack_le (hflatten : lines.flatten = texts) (hfits : ∀ line ∈ lines, Fits limit line) :
    (pack limit texts).length ≤ lines.length := by
  cases texts with
  | nil => exact Nat.zero_le _
  | cons text texts =>
    obtain ⟨skipped, after, others, rfl, _, rfl⟩ := List.flatten_eq_cons_iff.mp hflatten
    have hafter : Fits limit (text :: after) := hfits _ (by simp)
    have hothers : ∀ l ∈ others, Fits limit l := fun l hl => hfits l (by simp [hl])
    have hle := length_packAfter_le (List.cons_ne_nil text []) rfl hafter.of_ne_nil hothers
    rw [List.reverse_singleton, lineText_singleton] at hle
    rw [pack, List.length_append, List.length_cons]
    omega

end Layout

/-! ## Programs -/

open Layout

theorem Expr.WellFormed.exists_print {e : Expr} (h : e.WellFormed) : ∃ p, e.print = .ok p := by
  induction e with
  | literal n => exact ⟨_, rfl⟩
  | ident x => exact ⟨_, rfl⟩
  | unary op e ih =>
    obtain ⟨p, hp⟩ := ih h
    exact ⟨_, by rw [print, hp]; rfl⟩
  | binary l op r ihl ihr =>
    obtain ⟨p, hp⟩ := ihl h.1
    obtain ⟨q, hq⟩ := ihr h.2
    exact ⟨_, by rw [print, hp, hq]; rfl⟩
  | stray node => exact h.elim

theorem exists_texts {stmts : List Stmt} (h : ∀ s ∈ stmts, s.WellFormed) :
    ∃ texts, stmts.mapM Stmt.print = .ok texts ∧
      List.Forall₂ (fun s text => s.print = .ok text) stmts texts := by
  induction stmts with
  | nil => exact ⟨[], rfl, .nil⟩
  | cons s stmts ih =>
    obtain ⟨texts, htexts, hall⟩ := ih fun s hs => h s (List.mem_cons_of_mem _ hs)
    obtain ⟨text, htext⟩ : ∃ text, s.print = .ok text := by
      have hs := h s List.mem_cons_self
      cases s with
      | stray node => exact hs.elim
      | assign x e =>
        obtain ⟨p, hp⟩ := Expr.WellFormed.exists_print hs
        exact ⟨_, by rw [Stmt.print, hp]; rfl⟩
    exact ⟨text :: texts, by rw [List.mapM_cons, htext, htexts]; rfl, .cons htext hall⟩

/-- **The text of a program is its statements' texts on as few lines as possible.**  The lines are runs of
texts, none of them empty, joined by blanks; all of them together are the texts in their order; a line of
two or more keeps to the limit; and no division of the texts for which this holds has fewer lines. -/
theorem print_packs (limit : Int) {stmts : List Stmt} (h : ∀ s ∈ stmts, s.WellFormed) :
    ∃ (texts : List (List Char)) (lines : List (List (List Char))),
      List.Forall₂ (fun s text => s.print = .ok text) stmts texts ∧
      print limit stmts
        = .ok (String.ofList (['\n'].intercalate (lines.map fun line => [' '].intercalate line))) ∧
      (∀ line ∈ lines, line ≠ []) ∧ lines.flatten = texts ∧
      (∀ line ∈ lines, 2 ≤ line.length → ([' '].intercalate line).length ≤ limit) ∧
      ∀ others : List (List (List Char)), others.flatten = texts →
        (∀ line ∈ others, 2 ≤ line.length → ([' '].intercalate line).length ≤ limit) →
          lines.length ≤ others.length := by
  obtain ⟨texts, htexts, hall⟩ := exists_texts h
  refine ⟨texts, pack limit texts, hall, ?_, ne_nil_of_mem_pack limit texts, flatten_pack limit texts,
    fits_pack limit texts, ?_⟩
  · rw [print, htexts]
    rfl
  · intro others hflatten hfits
    exact length_pack_le hflatten hfits

/-- Three short statements around one that is longer than seven characters. -/
def crowded : List Stmt :=
  [.assign "a" (.ident "b"), .assign "c" (.ident "d"), .assign "long" (.ident "name"),
    .assign "e" (.ident "f")]

/-- The short ones share a line as far as they are neighbours; the long one has a line to itself. -/
theorem print_packs_crowded :
    (∀ s ∈ crowded, s.WellFormed) ∧ print 7 crowded = .ok "a=b c=d\nlong=name\ne=f" ∧
      ∃ (texts : List (List Char)) (lines : List (List (List Char))),
        print 7 crowded
          = .ok (String.ofList (['\n'].intercalate (lines.map fun line => [' '].intercalate line))) ∧
        lines.flatten = texts ∧
        ∀ others : List (List (List Char)), others.flatten = texts →
          (∀ line ∈ others, 2 ≤ line.length → ([' '].intercalate line).length ≤ (7 : Int)) →
            lines.length ≤ others.length := by
  have hwell : ∀ s ∈ crowded, s.WellFormed := by simp [crowded, Stmt.WellFormed, Expr.WellFormed]
  obtain ⟨texts, lines, _, hprint, _, hflatten, _, hfewest⟩ := print_packs 7 hwell
  exact ⟨hwell, by decide +kernel, texts, lines, hprint, hflatten, hfewest⟩

end Straightline.Target
