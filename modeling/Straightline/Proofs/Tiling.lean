import Mathlib.Data.List.Infix
import Straightline.Proofs.Scanning

/-!
# Tokens tile the text

A text is its tokens, in order, with a gap before each and one at the end.  A gap is white space and comments
(`GapBefore`).  What the characters of a token may be is said for each kind by itself (`Spells`), and a token is
the longest text at its place that any kind allows.  Its place counts the line feeds before it and the
characters behind the last of them (`Position.behind`).

`tokenize_tiles` says this of every text that is scanned to its end.  Of any other text it says the same up to
the place of the error, where neither white space nor a comment nor a token begins.  As a token is the longest
of its place, and neither white space nor a comment, there is one way only to tile a text, and the tiling says
which tokens the scan finds (`tokensFrom_of_covered`).
-/

namespace Straightline

/-! ## Places -/

namespace Position

/-- **The place behind a text**: one line more than it has line feeds, and one column more than it has
characters behind the last of them. -/
def behind (cs : List Char) : Position :=
  ⟨1 + cs.count '\n', 1 + (cs.reverse.takeWhile (· ≠ '\n')).length⟩

theorem behind_concat (cs : List Char) (c : Char) : behind (cs ++ [c]) = (behind cs).next c := by
  by_cases hc : c = '\n'
  · simp [behind, next, hc, Nat.add_assoc]
  · simp [behind, next, hc, Nat.add_assoc]

theorem advance_behind (cs ds : List Char) : (behind cs).advance ds = behind (cs ++ ds) := by
  induction ds generalizing cs with
  | nil => rw [List.append_nil]; rfl
  | cons d ds ih =>
    have hstep : (behind cs).advance (d :: ds) = (behind (cs ++ [d])).advance ds := by
      rw [behind_concat]
      rfl
    rw [hstep, ih, List.append_assoc, List.singleton_append]

end Position

namespace Lexer

variable {cs ds rest text : List Char} {c : Char} {kind : Token.Kind} {l : Lexeme}

/-! ## Gaps -/

/-- **What may stand between two tokens**: white space, and comments, each of which goes on to the end of its
line.  The text behind the gap is `rest`. -/
inductive GapBefore (rest : List Char) : List Char → Prop
  | nil : GapBefore rest []
  | space {c : Char} {cs : List Char} (hc : Text.isSpace c = true) (h : GapBefore rest cs) :
      GapBefore rest (c :: cs)
  | comment {body cs : List Char} (hbody : ∀ c ∈ body, c ≠ '\n')
      (hend : ∀ c, (cs ++ rest).head? = some c → c = '\n') (h : GapBefore rest cs) :
      GapBefore rest ('/' :: '/' :: (body ++ cs))

theorem GapBefore.append (h : GapBefore (ds ++ rest) cs) (h' : GapBefore rest ds) :
    GapBefore rest (cs ++ ds) := by
  induction h with
  | nil => exact h'
  | space hc _ ih => exact .space hc ih
  | comment hbody hend _ ih =>
    rw [List.cons_append, List.cons_append, List.append_assoc]
    refine .comment hbody ?_ ih
    rw [List.append_assoc]
    exact hend

/-- A comment runs up to the line feed behind it. -/
theorem gapBefore_comment (h : startsComment (c :: rest) = true) :
    GapBefore (rest.dropWhile (· ≠ '\n')) (c :: rest.takeWhile (· ≠ '\n')) := by
  unfold startsComment at h
  split at h
  · rename_i body heq
    obtain ⟨rfl, rfl⟩ := List.cons.inj heq
    have hend : ∀ d, (body.dropWhile (· ≠ '\n')).head? = some d → d = '\n' := by
      intro d hd
      have hstop := List.head?_dropWhile_not (· ≠ '\n') body
      rw [hd] at hstop
      simpa using hstop
    rw [List.takeWhile_cons_of_pos (by decide), List.dropWhile_cons_of_pos (by decide),
      ← List.append_nil (body.takeWhile (· ≠ '\n'))]
    refine .comment ?_ hend .nil
    intro d hd
    simpa using List.all_eq_true.mp List.all_takeWhile d hd
  · cases h

/-! ## Tokens -/

/-- The operators. -/
def operators : List (List Char) :=
  ['+', '-', '*', '/', '%', '^', '<', '>'].map (fun c => [c]) ++
    ['<', '>', '=', '!'].map fun c => [c, '=']

theorem mem_operators : text ∈ operators ↔
    (∃ c, isOperator c = true ∧ text = [c]) ∨ ∃ c, pairsWithEquals c = true ∧ text = [c, '='] := by
  simp [operators, isOperator, pairsWithEquals, or_and_right, exists_or, or_assoc]

/-- **How the tokens of a kind are spelt.**  A numeral has digits and, behind a point, possibly more of them. -/
def Spells : Token.Kind → List Char → Prop
  | .ident, text => ∃ c cs, text = c :: cs ∧ SpellsName c cs
  | .number, text => ∃ whole, whole ≠ [] ∧ (∀ c ∈ whole, Text.isDigit c = true) ∧
      (text = whole ∨
        ∃ fraction, (∀ c ∈ fraction, Text.isDigit c = true) ∧ text = whole ++ '.' :: fraction)
  | .op, text => text ∈ operators
  | .assign, text => text = ['=']
  | .comma, text => text = [',']
  | .semi, text => text = [';']
  | .lparen, text => text = ['(']
  | .rparen, text => text = [')']
  | .lbracket, text => text = ['[']
  | .rbracket, text => text = [']']
  | .eof, text => text = []

theorem spells_punctuation (h : punctuation? c = some kind) : Spells kind [c] := by
  unfold punctuation? at h
  repeat' split at h
  all_goals first
    | (subst_vars; cases h; rfl)
    | cases h

theorem numeral_kind (cs : List Char) : (numeral cs).kind = .number := by
  unfold numeral
  split <;> rfl

theorem spells_numeral (h : Text.isDigit c = true) :
    Spells .number (numeral (c :: rest)).text := by
  have hwhole : ∀ d ∈ (c :: rest).takeWhile Text.isDigit, Text.isDigit d = true :=
    fun d hd => List.all_eq_true.mp List.all_takeWhile d hd
  have hne : (c :: rest).takeWhile Text.isDigit ≠ [] := by
    rw [List.takeWhile_cons_of_pos h]
    exact List.cons_ne_nil _ _
  refine ⟨_, hne, hwhole, ?_⟩
  unfold numeral
  split
  · exact Or.inr ⟨_, fun d hd => List.all_eq_true.mp List.all_takeWhile d hd, rfl⟩
  · exact Or.inl rfl

/-- **A token is spelt as its kind demands.** -/
theorem spells_of_lexeme? (hspace : Text.isSpace c = false) (h : lexeme? (c :: rest) = some l) :
    Spells l.kind l.text := by
  simp only [lexeme?] at h
  split at h
  · rename_i hpair
    cases h
    exact mem_operators.mpr (Or.inr ⟨c, (Bool.and_eq_true_iff.mp hpair).1, rfl⟩)
  split at h
  · rename_i hoperator
    cases h
    exact mem_operators.mpr (Or.inl ⟨c, hoperator, rfl⟩)
  rename_i hoperator
  split at h
  · rename_i kind hkind
    cases h
    exact spells_punctuation hkind
  rename_i hpunctuation
  split at h
  · rename_i hdigit
    cases h
    rw [numeral_kind]
    exact spells_numeral hdigit
  rename_i hdigit
  split at h
  · rename_i hstart
    cases h
    refine ⟨c, _, rfl, hspace, eq_false_of_ne_true hoperator, ?_, eq_false_of_ne_true hdigit, hstart,
      List.all_takeWhile⟩
    exact Option.eq_none_iff_forall_ne_some.mpr fun kind hkind => hpunctuation kind hkind
  · cases h

theorem Spells.ne_nil (h : Spells kind text) (hkind : kind ≠ .eof) : text ≠ [] := by
  rintro rfl
  cases kind with
  | eof => exact hkind rfl
  | ident =>
    obtain ⟨c, cs, heq, _⟩ := h
    cases heq
  | number =>
    obtain ⟨whole, hne, _, heq | ⟨fraction, _, heq⟩⟩ := h
    · exact hne heq.symm
    · exact List.append_ne_nil_of_right_ne_nil whole (List.cons_ne_nil _ _) heq.symm
  | op => exact (by decide : [] ∉ operators) h
  | _ => cases h

/-- A mark always begins a token, either itself or an operator of two characters. -/
theorem exists_lexeme?_of_mark
    (h : isOperator c = true ∧ kind = .op ∨ isOperator c = false ∧ punctuation? c = some kind)
    (rest : List Char) :
    ∃ l, lexeme? (c :: rest) = some l ∧ (l.text.length = 1 → l.kind = kind) := by
  by_cases hpair : (pairsWithEquals c && rest.head? == some '=') = true
  · refine ⟨⟨.op, [c, '='], rest.tail⟩, by rw [lexeme?, if_pos hpair], ?_⟩
    intro hlen
    cases hlen
  rcases h with ⟨hoperator, rfl⟩ | ⟨hoperator, hkind⟩
  · exact ⟨⟨.op, [c], rest⟩, by rw [lexeme?, if_neg hpair, if_pos hoperator], fun _ => rfl⟩
  · refine ⟨⟨kind, [c], rest⟩, ?_, fun _ => rfl⟩
    simp only [lexeme?, if_neg hpair, hoperator, Bool.false_eq_true, if_false, hkind]

/-- **Scanning a numeral takes all of it.** -/
theorem length_le_numeral (h : Spells .number text) :
    text.length ≤ (numeral (text ++ rest)).text.length := by
  unfold numeral
  obtain ⟨whole, _, hwhole, rfl | ⟨fraction, hfraction, rfl⟩⟩ := h
  · rw [List.takeWhile_append_of_pos hwhole]
    split
    · rw [List.length_append, List.length_append]
      omega
    · rw [List.length_append]
      omega
  · have hpoint : ∀ c, ('.' :: (fraction ++ rest)).head? = some c → Text.isDigit c = false := by
      intro c hc
      obtain rfl := Option.some.inj hc
      decide
    obtain ⟨htake, hdrop⟩ := span_append hwhole hpoint
    rw [List.append_assoc, List.cons_append, htake, hdrop]
    simp only [List.takeWhile_append_of_pos hfraction, List.length_append, List.length_cons]
    omega

/-- **What is spelt as a token is found**, or a longer one that begins with it. -/
theorem exists_lexeme? (h : Spells kind text) (hne : text ≠ []) (hfront : text <+: cs) :
    ∃ l, lexeme? cs = some l ∧ text.length ≤ l.text.length ∧
      (l.text.length = text.length → l.kind = kind) := by
  obtain ⟨rest, rfl⟩ := hfront
  have hmark : ∀ c, text = [c] →
      isOperator c = true ∧ kind = .op ∨ isOperator c = false ∧ punctuation? c = some kind →
      ∃ l, lexeme? (text ++ rest) = some l ∧ text.length ≤ l.text.length ∧
        (l.text.length = text.length → l.kind = kind) := by
    rintro c rfl hc
    obtain ⟨l, hl, hkind⟩ := exists_lexeme?_of_mark hc rest
    exact ⟨l, hl, List.length_pos_iff.mpr (lexeme?_ne_nil hl), hkind⟩
  cases kind with
  | eof => exact absurd h hne
  | op =>
    rcases mem_operators.mp h with ⟨c, hc, htext⟩ | ⟨c, hc, rfl⟩
    · exact hmark c htext (Or.inl ⟨hc, rfl⟩)
    · refine ⟨⟨.op, [c, '='], rest⟩, ?_, Nat.le_refl _, fun _ => rfl⟩
      simp [lexeme?, hc]
  | number =>
    obtain ⟨c, cs, rfl, hc⟩ : ∃ c cs, text = c :: cs ∧ Text.isDigit c = true := by
      obtain ⟨whole, hwhole, hdigits, htext⟩ := h
      obtain ⟨c, cs, rfl⟩ := List.exists_cons_of_ne_nil hwhole
      rcases htext with rfl | ⟨fraction, _, rfl⟩
      · exact ⟨c, _, rfl, hdigits c List.mem_cons_self⟩
      · exact ⟨c, _, rfl, hdigits c List.mem_cons_self⟩
    obtain ⟨hpairs, hoperator, hpunctuation⟩ := not_mark_of_class hc (by decide)
    refine ⟨numeral (c :: cs ++ rest), ?_, length_le_numeral h, fun _ => numeral_kind _⟩
    simp only [List.cons_append, lexeme?, hpairs, Bool.false_and, hoperator, Bool.false_eq_true, if_false,
      hpunctuation, hc, if_true]
  | ident =>
    obtain ⟨c, cs, rfl, hname⟩ := h
    obtain ⟨hpairs, _, _⟩ := not_mark_of_class hname.start (by decide)
    refine ⟨⟨.ident, c :: (cs ++ rest).takeWhile continuesName, (cs ++ rest).dropWhile continuesName⟩,
      ?_, ?_, fun _ => rfl⟩
    · simp only [List.cons_append, lexeme?, hpairs, Bool.false_and, hname.operator, Bool.false_eq_true,
        if_false, hname.punctuation, hname.digit, hname.start, if_true]
    · rw [List.takeWhile_append_of_pos (List.all_eq_true.mp hname.more), List.length_cons,
        List.length_cons, List.length_append]
      omega
  | _ => exact hmark _ h (Or.inr ⟨by decide, rfl⟩)

/-- **No token begins here**, of whatever kind. -/
def BeginsNoToken (cs : List Char) : Prop := ∀ kind text, text <+: cs → text ≠ [] → ¬ Spells kind text

theorem lexeme?_eq_none_iff (hspace : Text.isSpace c = false) :
    lexeme? (c :: rest) = none ↔ BeginsNoToken (c :: rest) := by
  constructor
  · intro hnone kind text hfront hne hspells
    obtain ⟨l, hl, _⟩ := exists_lexeme? hspells hne hfront
    cases hnone.symm.trans hl
  · intro h
    by_contra hsome
    obtain ⟨l, hl⟩ := Option.ne_none_iff_exists'.mp hsome
    have hfront : l.text <+: c :: rest := ⟨l.rest, lexeme?_append hl⟩
    exact h l.kind l.text hfront (lexeme?_ne_nil hl) (spells_of_lexeme? hspace hl)

/-! ## Tilings -/

/-- **A token with the gap before it.** -/
structure Piece where
  gap : List Char
  token : Token

/-- The characters of a piece. -/
def Piece.chars (piece : Piece) : List Char := piece.gap ++ piece.token.text.toList

/-- **A piece as it has to be**, between the text before it and the text behind it. -/
structure Piece.Fits (before : List Char) (piece : Piece) (behind : List Char) : Prop where
  gap : GapBefore (piece.token.text.toList ++ behind) piece.gap
  /-- The gap does not go on. -/
  space : ∀ c, (piece.token.text.toList ++ behind).head? = some c → Text.isSpace c = false
  comment : ¬ ['/', '/'] <+: piece.token.text.toList ++ behind
  spells : Spells piece.token.kind piece.token.text.toList
  /-- The end of the text is no piece of it. -/
  kind_ne_eof : piece.token.kind ≠ .eof
  /-- No longer text at its place is a token. -/
  longest : ∀ kind text, text <+: piece.token.text.toList ++ behind →
    piece.token.text.toList.length < text.length → ¬ Spells kind text
  position : piece.token.position = .behind (before ++ piece.gap)

/-- **Pieces one behind the other**, the first of them behind `before` and the last before `rest`. -/
def Tiles (before : List Char) : List Piece → List Char → Prop
  | [], _ => True
  | piece :: pieces, rest =>
    piece.Fits before (pieces.flatMap Piece.chars ++ rest) ∧ Tiles (before ++ piece.chars) pieces rest

/-- How a scan that saw `seen`, in `pieces` and a gap, ends before `rest`: at the end of the text, or where no
token begins. -/
def Ends (seen : List Char) (pieces : List Piece) (rest : List Char) :
    Except LexError (List Token) → Prop
  | .ok toks => rest = [] ∧ toks = pieces.map Piece.token ++ [⟨.eof, "", .behind seen⟩]
  | .error e => ∃ c after, rest = c :: after ∧ e = ⟨c, .behind seen⟩ ∧ Text.isSpace c = false ∧
      ¬ ['/', '/'] <+: c :: after ∧ BeginsNoToken (c :: after)

/-- **What is to be shown of a scan** that goes on with `cs` behind `before` and ends in `r`. -/
def Covered (before cs : List Char) (r : Except LexError (List Token)) : Prop :=
  ∃ pieces gap rest, cs = pieces.flatMap Piece.chars ++ (gap ++ rest) ∧
    Tiles before pieces (gap ++ rest) ∧ GapBefore rest gap ∧
    Ends (before ++ pieces.flatMap Piece.chars ++ gap) pieces rest r

theorem startsComment_eq_false_iff : startsComment cs = false ↔ ¬ ['/', '/'] <+: cs := by
  constructor
  · rintro h ⟨rest, rfl⟩
    cases h
  · intro h
    unfold startsComment
    split
    · exact absurd ⟨_, rfl⟩ h
    · rfl

/-- A token that was split off a text fits behind a gap. -/
theorem fits_of_lexeme? (before : List Char) {gap : List Char} (hspace : Text.isSpace c = false)
    (hcomment : startsComment (c :: rest) = false) (hl : lexeme? (c :: rest) = some l)
    (hgap : GapBefore (c :: rest) gap) :
    Piece.Fits before ⟨gap, ⟨l.kind, String.ofList l.text, .behind (before ++ gap)⟩⟩ l.rest := by
  have hchars : (String.ofList l.text).toList = l.text := String.toList_ofList
  have htext : (String.ofList l.text).toList ++ l.rest = c :: rest := by
    rw [hchars, lexeme?_append hl]
  constructor
  · rw [htext]
    exact hgap
  · intro d hd
    rw [htext] at hd
    obtain rfl := Option.some.inj hd
    exact hspace
  · rw [htext]
    exact startsComment_eq_false_iff.mp hcomment
  · rw [hchars]
    exact spells_of_lexeme? hspace hl
  · exact Scanned.kind_ne_eof ⟨c, rest, l, hspace, hl, rfl, rfl⟩
  · intro kind text hfront hlonger hspells
    rw [htext] at hfront
    have hne : text ≠ [] := List.length_pos_iff.mp (Nat.zero_lt_of_lt hlonger)
    -- the scan would have split off the longer one
    obtain ⟨l', hl', hle, _⟩ := exists_lexeme? hspells hne hfront
    obtain rfl := Option.some.inj (hl.symm.trans hl')
    rw [hchars] at hlonger
    exact Nat.not_lt.mpr hle hlonger
  · rfl

theorem Ends.cons {seen : List Char} {pieces : List Piece} {r : Except LexError (List Token)}
    (h : Ends seen pieces rest r) (piece : Piece) :
    Ends seen (piece :: pieces) rest (r.map (piece.token :: ·)) := by
  cases r with
  | error e => exact h
  | ok toks => exact ⟨h.1, by rw [h.2]; rfl⟩

/-- A piece before a text that is covered. -/
theorem Covered.cons {before : List Char} {piece : Piece} {r : Except LexError (List Token)}
    (hfits : piece.Fits before cs) (h : Covered (before ++ piece.chars) cs r) :
    Covered before (piece.chars ++ cs) (r.map (piece.token :: ·)) := by
  obtain ⟨pieces, gap, rest, rfl, htiles, hgap, hends⟩ := h
  refine ⟨piece :: pieces, gap, rest, ?_, ⟨hfits, htiles⟩, hgap, ?_⟩
  · rw [List.flatMap_cons, List.append_assoc]
  · rw [List.flatMap_cons, ← List.append_assoc before]
    exact hends.cons piece

/-- **The invariant of a scan** that stands at `p` and goes on with `cs`: a gap is skipped already since the last
token, which ends behind `before`. -/
def CoveredFrom (p : Position) (cs : List Char) (r : Except LexError (List Token)) : Prop :=
  ∀ before gap, GapBefore cs gap → p = .behind (before ++ gap) → Covered before (gap ++ cs) r

variable {p : Position} {r : Except LexError (List Token)}

/-- What is skipped lengthens the gap. -/
theorem CoveredFrom.skip (hgap : GapBefore rest cs) (h : CoveredFrom (p.advance cs) rest r) :
    CoveredFrom p (cs ++ rest) r := by
  intro before gap hbefore hp
  have hcovered := h before (gap ++ cs) (hbefore.append hgap)
    (by rw [hp, Position.advance_behind, List.append_assoc])
  rw [List.append_assoc] at hcovered
  exact hcovered

/-- A token ends the gap before it, and a new one begins. -/
theorem CoveredFrom.token (hspace : Text.isSpace c = false)
    (hcomment : startsComment (c :: rest) = false) (hl : lexeme? (c :: rest) = some l)
    (h : CoveredFrom (p.advance l.text) l.rest r) :
    CoveredFrom p (c :: rest) (r.map (⟨l.kind, String.ofList l.text, p⟩ :: ·)) := by
  rintro before gap hgap rfl
  have hfits := fits_of_lexeme? before hspace hcomment hl hgap
  have hchars : gap ++ (String.ofList l.text).toList = gap ++ l.text := by rw [String.toList_ofList]
  have hcovered := h (before ++ (gap ++ l.text)) [] .nil
    (by rw [Position.advance_behind, List.append_nil, List.append_assoc])
  have hwhole := Covered.cons hfits (by rw [Piece.chars, hchars]; exact hcovered)
  rw [Piece.chars, hchars, List.append_assoc, lexeme?_append hl] at hwhole
  exact hwhole

/-- **Every scan covers its text.** -/
theorem coveredFrom_tokensFrom (p : Position) (cs : List Char) :
    CoveredFrom p cs (tokensFrom p cs) := by
  refine tokensFrom_outcome ?_ ?_ ?_ ?_ ?_ p cs
  · intro p before gap hgap hp
    refine ⟨[], gap, [], rfl, trivial, hgap, rfl, ?_⟩
    rw [hp, List.flatMap_nil, List.append_nil]
    rfl
  · intro p c rest r hspace ih
    have hgap : GapBefore rest [c] := .space hspace .nil
    exact ih.skip hgap
  · intro p c rest r hcomment ih
    have hsplit : c :: rest = (c :: rest.takeWhile (· ≠ '\n')) ++ rest.dropWhile (· ≠ '\n') := by
      rw [List.cons_append, List.takeWhile_append_dropWhile]
    rw [hsplit]
    exact ih.skip (gapBefore_comment hcomment)
  · intro p c rest hspace hcomment hnone before gap hgap hp
    refine ⟨[], gap, c :: rest, rfl, trivial, hgap, c, rest, rfl, ?_, hspace,
      startsComment_eq_false_iff.mp hcomment, (lexeme?_eq_none_iff hspace).mp hnone⟩
    rw [hp, List.flatMap_nil, List.append_nil]
  · intro p c rest l r hspace hcomment hl ih
    exact ih.token hspace hcomment hl

/-! ## Every tiling is a scan -/

theorem scans_comment {body : List Char} (hbody : ∀ c ∈ body, c ≠ '\n')
    (hend : ∀ c, rest.head? = some c → c = '\n') : Scans p ('/' :: '/' :: body) [] rest := by
  have hline : ∀ c ∈ '/' :: body, decide (c ≠ '\n') = true := by
    intro c hc
    rcases List.mem_cons.mp hc with rfl | hc
    · decide
    · simpa using hbody c hc
  have hstop : ∀ c, rest.head? = some c → decide (c ≠ '\n') = false := by
    intro c hc
    simpa using hend c hc
  obtain ⟨htake, hdrop⟩ := span_append hline hstop
  have hstep : tokensFrom p (('/' :: '/' :: body) ++ rest) =
      tokensFrom (p.advance ('/' :: '/' :: body)) rest := by
    rw [List.cons_append, tokensFrom, if_neg (by decide), if_pos (by rfl), htake, hdrop]
  exact hstep.trans Scans.nil

theorem scans_gap (h : GapBefore rest cs) (p : Position) : Scans p cs [] rest := by
  induction h generalizing p with
  | nil => exact Scans.nil
  | @space c cs hc _ ih => exact (scans_space hc).append (ih (p.advance [c]))
  | @comment body cs hbody hend _ ih =>
    exact (scans_comment hbody hend).append (ih (p.advance ('/' :: '/' :: body)))

theorem Piece.Fits.exists_cons {before behind : List Char} {piece : Piece}
    (h : piece.Fits before behind) :
    ∃ c cs, piece.token.text.toList = c :: cs ∧ Text.isSpace c = false := by
  obtain ⟨c, cs, hcs⟩ := List.exists_cons_of_ne_nil (h.spells.ne_nil h.kind_ne_eof)
  refine ⟨c, cs, hcs, h.space c ?_⟩
  rw [hcs]
  rfl

/-- A token that fits is the one that the scan splits off: a longer one would not be allowed. -/
theorem Piece.Fits.lexeme? {before behind : List Char} {piece : Piece} (h : piece.Fits before behind) :
    Lexer.lexeme? (piece.token.text.toList ++ behind) =
      some ⟨piece.token.kind, piece.token.text.toList, behind⟩ := by
  have hne : piece.token.text.toList ≠ [] := h.spells.ne_nil h.kind_ne_eof
  obtain ⟨l, hl, hle, hkind⟩ := exists_lexeme? h.spells hne (List.prefix_append _ behind)
  have happend : l.text ++ l.rest = piece.token.text.toList ++ behind := lexeme?_append hl
  have hspells : Spells l.kind l.text := by
    obtain ⟨c, cs, hcs, hspace⟩ := h.exists_cons
    rw [hcs, List.cons_append] at hl
    exact spells_of_lexeme? hspace hl
  have hlength : l.text.length = piece.token.text.toList.length := by
    by_contra hdiff
    have hlonger : piece.token.text.toList.length < l.text.length := by omega
    exact h.longest l.kind l.text ⟨l.rest, happend⟩ hlonger hspells
  obtain ⟨htext, hrest⟩ := List.append_inj happend hlength
  rw [hl, ← hkind hlength, ← htext, ← hrest]

theorem Piece.Fits.scans {before behind : List Char} {piece : Piece} (h : piece.Fits before behind) :
    Scans (.behind before) piece.chars [piece.token] behind := by
  have hgap : Scans (.behind before) piece.gap [] (piece.token.text.toList ++ behind) :=
    scans_gap h.gap (.behind before)
  obtain ⟨c, cs, hcs, hspace⟩ := h.exists_cons
  have hcomment := startsComment_eq_false_iff.mpr h.comment
  have hl := h.lexeme?
  rw [hcs] at hcomment hl
  have htoken : Scans piece.token.position (c :: cs)
      [⟨piece.token.kind, String.ofList (c :: cs), piece.token.position⟩] behind :=
    scans_lexeme hspace hcomment hl
  have hposition : piece.token.position = (Position.behind before).advance piece.gap := by
    rw [h.position, Position.advance_behind]
  rw [← hcs, String.ofList_toList] at htoken
  exact hgap.append (hposition ▸ htoken)

/-- **Pieces that tile a text are scanned as they stand.** -/
theorem scans_of_tiles {before : List Char} {pieces : List Piece} (h : Tiles before pieces rest) :
    Scans (.behind before) (pieces.flatMap Piece.chars) (pieces.map Piece.token) rest := by
  induction pieces generalizing before with
  | nil => exact Scans.nil
  | cons piece pieces ih =>
    obtain ⟨hfits, htiles⟩ := h
    have hmore := ih htiles
    rw [← Position.advance_behind] at hmore
    exact hfits.scans.append hmore

/-- **A cover of a text decides how it is scanned.** -/
theorem tokensFrom_of_covered {before : List Char} (h : Covered before cs r) :
    tokensFrom (.behind before) cs = r := by
  obtain ⟨pieces, gap, rest, rfl, htiles, hgap, hends⟩ := h
  have hscans : Scans (.behind before) (pieces.flatMap Piece.chars ++ gap)
      (pieces.map Piece.token ++ []) rest :=
    (scans_of_tiles htiles).append (scans_gap hgap _)
  unfold Scans at hscans
  rw [List.append_nil, Position.advance_behind, ← List.append_assoc before] at hscans
  rw [← List.append_assoc, hscans]
  cases r with
  | ok toks =>
    obtain ⟨rfl, rfl⟩ := hends
    rw [tokensFrom]
    rfl
  | error e =>
    obtain ⟨c, after, rfl, rfl, hspace, hcomment, htoken⟩ := hends
    have hnone := (lexeme?_eq_none_iff hspace).mpr htoken
    have hstop : tokensFrom (.behind (before ++ pieces.flatMap Piece.chars ++ gap)) (c :: after) =
        .error ⟨c, .behind (before ++ pieces.flatMap Piece.chars ++ gap)⟩ := by
      rw [tokensFrom, if_neg (by simp [hspace]), if_neg (by simp [startsComment_eq_false_iff.mpr hcomment])]
      split
      · rfl
      · rename_i l hl
        cases hnone.symm.trans hl
    rw [hstop]
    rfl

theorem tokenize_eq_iff {s : String} : tokenize s = r ↔ Covered [] s.toList r := by
  constructor
  · rintro rfl
    exact coveredFrom_tokensFrom .start s.toList [] [] .nil rfl
  · intro h
    exact tokensFrom_of_covered h

end Lexer

open Lexer

/-- **Scanning loses nothing and knows its places.**  A text is scanned to its end just when it is its tokens and
the gaps between them: each token is the longest at its place and stands where it says, and one more token, the
only one of its kind, marks the end of the text.  A text is refused just when it is gaps and tokens as far as the
place of the error, and the character there is neither white space nor the beginning of a comment or a token. -/
theorem tokenize_tiles (s : String) :
    (∀ toks, tokenize s = .ok toks ↔ ∃ pieces gap,
      s.toList = pieces.flatMap Piece.chars ++ gap ∧ Tiles [] pieces gap ∧ GapBefore [] gap ∧
      toks = pieces.map Piece.token ++ [⟨.eof, "", .behind s.toList⟩]) ∧
    (∀ e, tokenize s = .error e ↔ ∃ pieces gap c after,
      s.toList = pieces.flatMap Piece.chars ++ (gap ++ c :: after) ∧
      Tiles [] pieces (gap ++ c :: after) ∧ GapBefore (c :: after) gap ∧
      e = ⟨c, .behind (pieces.flatMap Piece.chars ++ gap)⟩ ∧ Text.isSpace c = false ∧
      ¬ ['/', '/'] <+: c :: after ∧ BeginsNoToken (c :: after)) := by
  constructor
  · intro toks
    rw [tokenize_eq_iff]
    constructor
    · rintro ⟨pieces, gap, _, htext, htiles, hgap, rfl, htoks⟩
      rw [List.append_nil] at htext htiles
      rw [List.nil_append, ← htext] at htoks
      exact ⟨pieces, gap, htext, htiles, hgap, htoks⟩
    · rintro ⟨pieces, gap, htext, htiles, hgap, htoks⟩
      rw [htext] at htoks
      refine ⟨pieces, gap, [], ?_, ?_, hgap, rfl, htoks⟩
      · rw [htext, List.append_nil]
      · rw [List.append_nil]
        exact htiles
  · intro e
    rw [tokenize_eq_iff]
    constructor
    · rintro ⟨pieces, gap, _, htext, htiles, hgap, c, after, rfl, hstop⟩
      exact ⟨pieces, gap, c, after, htext, htiles, hgap, hstop⟩
    · rintro ⟨pieces, gap, c, after, htext, htiles, hgap, hstop⟩
      exact ⟨pieces, gap, c :: after, htext, htiles, hgap, c, after, rfl, hstop⟩

/-- Operators without blanks, a numeral that ends in its point and a comment between two lines; and a text that
is refused at its second point. -/
theorem tokenize_tiles_mixed :
    (tokenize "a<=1.// <\n =b" = .ok [⟨.ident, "a", ⟨1, 1⟩⟩, ⟨.op, "<=", ⟨1, 2⟩⟩, ⟨.number, "1.", ⟨1, 4⟩⟩,
        ⟨.assign, "=", ⟨2, 2⟩⟩, ⟨.ident, "b", ⟨2, 3⟩⟩, ⟨.eof, "", ⟨2, 4⟩⟩] ∧
      ∃ pieces gap, "a<=1.// <\n =b".toList = pieces.flatMap Piece.chars ++ gap ∧ Tiles [] pieces gap ∧
        GapBefore [] gap) ∧
    tokenize "\n1..2" = .error ⟨'.', ⟨2, 3⟩⟩ ∧
      ∃ pieces gap c after, "\n1..2".toList = pieces.flatMap Piece.chars ++ (gap ++ c :: after) ∧
        Tiles [] pieces (gap ++ c :: after) ∧
        (⟨'.', ⟨2, 3⟩⟩ : LexError) = ⟨c, .behind (pieces.flatMap Piece.chars ++ gap)⟩ ∧
        BeginsNoToken (c :: after) := by
  have hscanned : tokenize "a<=1.// <\n =b" = .ok [⟨.ident, "a", ⟨1, 1⟩⟩, ⟨.op, "<=", ⟨1, 2⟩⟩,
      ⟨.number, "1.", ⟨1, 4⟩⟩, ⟨.assign, "=", ⟨2, 2⟩⟩, ⟨.ident, "b", ⟨2, 3⟩⟩, ⟨.eof, "", ⟨2, 4⟩⟩] := by
    decide +kernel
  have hrefused : tokenize "\n1..2" = .error ⟨'.', ⟨2, 3⟩⟩ := by decide +kernel
  obtain ⟨pieces, gap, htext, htiles, hgap, _⟩ := ((tokenize_tiles _).1 _).mp hscanned
  obtain ⟨pieces', gap', c, after, htext', htiles', _, he, _, _, hnone⟩ :=
    ((tokenize_tiles _).2 _).mp hrefused
  exact ⟨⟨hscanned, pieces, gap, htext, htiles, hgap⟩, hrefused, pieces', gap', c, after, htext', htiles',
    he, hnone⟩

end Straightline
