import Straightline.Grammar.Expression
import Straightline.Proofs.Numerals
import Straightline.Proofs.Steps

/-!
# Scanning piece by piece

`Scans p cs toks rest` says that the text `cs`, standing at `p` and followed by `rest`, contributes the
tokens `toks`.  Pieces that are scanned one behind the other are scanned together (`Scans.append`), so
the tokens of a text follow from those of its blanks, names, numerals and marks.  What may follow a
piece is a matter of its last token: a name or a numeral must not be continued (`Breaks`), and an
operator must not become another one or a comment (`Parts`).

The other way round, the tokens of any text are those of its pieces (`tokensFrom_induction`): a token
that was split off a text is *scanned* (`Scanned`), and its kind says how it is spelt.
-/

namespace Straightline.Lexer

variable {p : Position} {cs ds rest : List Char} {toks more : List Token} {c : Char}

/-- **What a text contributes** to the tokens of a longer one. -/
def Scans (p : Position) (cs : List Char) (toks : List Token) (rest : List Char) : Prop :=
  tokensFrom p (cs ++ rest) = (tokensFrom (p.advance cs) rest).map (toks ++ ·)

theorem Scans.append (h : Scans p cs toks (ds ++ rest)) (h' : Scans (p.advance cs) ds more rest) :
    Scans p (cs ++ ds) (toks ++ more) rest := by
  have hadvance : p.advance (cs ++ ds) = (p.advance cs).advance ds := List.foldl_append
  unfold Scans at *
  rw [List.append_assoc, h, h', hadvance]
  cases tokensFrom ((p.advance cs).advance ds) rest with
  | error e => rfl
  | ok all => exact congrArg Except.ok (List.append_assoc toks more all).symm

theorem Scans.nil : Scans p [] [] rest := by
  unfold Scans
  cases h : tokensFrom p rest with
  | error e => simp [Position.advance, h, Except.map]
  | ok all => simp [Position.advance, h, Except.map]

theorem scans_space (h : Text.isSpace c = true) : Scans p [c] [] rest := by
  have hstep : tokensFrom p (c :: rest) = tokensFrom (p.next c) rest := by
    rw [tokensFrom, if_pos h]
  have hnil : tokensFrom (p.next c) rest = (tokensFrom (p.next c) rest).map ([] ++ ·) := Scans.nil
  exact hstep.trans hnil

/-- A text that is a token by itself. -/
theorem scans_lexeme {kind : Token.Kind} (hspace : Text.isSpace c = false)
    (hcomment : startsComment (c :: (cs ++ rest)) = false)
    (h : lexeme? (c :: (cs ++ rest)) = some ⟨kind, c :: cs, rest⟩) :
    Scans p (c :: cs) [⟨kind, String.ofList (c :: cs), p⟩] rest := by
  unfold Scans
  rw [List.cons_append, tokensFrom, if_neg (by simp [hspace]), if_neg (by simp [hcomment])]
  split
  · rename_i hnone
    rw [h] at hnone
    cases hnone
  · rename_i l hl
    obtain rfl := Option.some.inj (h.symm.trans hl)
    cases tokensFrom (p.advance (c :: cs)) rest with
    | error e => rfl
    | ok all => rfl

/-! ## Marks -/

/-- **A text that keeps an operator before it as it is.** -/
def Parts (cs : List Char) : Prop := ∀ c, cs.head? = some c → c ≠ '=' ∧ c ≠ '/'

theorem parts_cons (h : c ≠ '=') (h' : c ≠ '/') : Parts (c :: rest) := by
  intro d hd
  obtain rfl := Option.some.inj hd
  exact ⟨h, h'⟩

theorem startsComment_of_parts (h : Parts rest) : startsComment (c :: rest) = false := by
  unfold startsComment
  split
  · rename_i heq
    rw [(List.cons.inj heq).2] at h
    exact absurd rfl (h '/' rfl).2
  · rfl

theorem startsComment_of_isOperator (h : isOperator c = false) : startsComment (c :: rest) = false := by
  unfold startsComment
  split
  · rename_i heq
    rw [(List.cons.inj heq).1] at h
    exact absurd h (by decide)
  · rfl

theorem head?_ne_equals (h : Parts rest) : (rest.head? == some '=') = false := by
  cases rest with
  | nil => rfl
  | cons c rest =>
    have hc := (h c rfl).1
    simp [hc]

theorem scans_operator (hspace : Text.isSpace c = false) (h : isOperator c = true)
    (hrest : Parts rest) : Scans p [c] [⟨.op, String.ofList [c], p⟩] rest := by
  refine scans_lexeme hspace (startsComment_of_parts hrest) ?_
  simp only [List.nil_append, lexeme?, head?_ne_equals hrest, Bool.and_false, Bool.false_eq_true,
    if_false, h, if_true]

/-- The operators of two characters. -/
theorem scans_pair (hspace : Text.isSpace c = false) (h : pairsWithEquals c = true) :
    Scans p [c, '='] [⟨.op, String.ofList [c, '='], p⟩] rest := by
  have hcomment : startsComment (c :: '=' :: rest) = false :=  by
    unfold startsComment
    split
    · rename_i heq
      cases heq
    · rfl
  refine scans_lexeme hspace hcomment ?_
  simp only [List.cons_append, List.nil_append, lexeme?, h, List.head?_cons, beq_self_eq_true,
    Bool.and_true, if_true, List.tail_cons]

theorem scans_punctuation {kind : Token.Kind} (hspace : Text.isSpace c = false)
    (hoperator : isOperator c = false) (h : punctuation? c = some kind)
    (hrest : pairsWithEquals c = true → Parts rest) :
    Scans p [c] [⟨kind, String.ofList [c], p⟩] rest := by
  have hpair : (pairsWithEquals c && rest.head? == some '=') = false := by
    cases hc : pairsWithEquals c with
    | false => rfl
    | true => exact head?_ne_equals (hrest hc)
  refine scans_lexeme hspace (startsComment_of_isOperator hoperator) ?_
  simp only [List.nil_append, lexeme?, hpair, hoperator, Bool.false_eq_true, if_false, h]

/-! ## Numerals and names -/

/-- **A text that continues neither a name nor a numeral** before it. -/
def Breaks (cs : List Char) : Prop := ∀ c, cs.head? = some c → continuesName c = false ∧ c ≠ '.'

theorem breaks_nil : Breaks [] := nofun

theorem breaks_cons (h : continuesName c = false) (h' : c ≠ '.') : Breaks (c :: rest) := by
  intro d hd
  obtain rfl := Option.some.inj hd
  exact ⟨h, h'⟩

/-- The punctuation marks that never are part of an operator. -/
def marks : List Char := [',', ';', '(', ')', '[', ']']

theorem class_of_mem_marks (h : c ∈ marks) : Text.isSpace c = false ∧ isOperator c = false ∧
    pairsWithEquals c = false ∧ continuesName c = false ∧ c ≠ '.' := by
  simp only [marks, List.mem_cons, List.not_mem_nil, or_false] at h
  rcases h with rfl | rfl | rfl | rfl | rfl | rfl <;> decide

theorem breaks_mark (h : c ∈ marks) : Breaks (c :: rest) := by
  obtain ⟨_, _, _, hname, hpoint⟩ := class_of_mem_marks h
  exact breaks_cons hname hpoint

theorem scans_mark {kind : Token.Kind} (hc : c ∈ marks) (h : punctuation? c = some kind) :
    Scans p [c] [⟨kind, String.ofList [c], p⟩] rest := by
  obtain ⟨hspace, hoperator, hpairs, _, _⟩ := class_of_mem_marks hc
  exact scans_punctuation hspace hoperator h fun hc => absurd (hpairs.symm.trans hc) (by decide)

/-- A text between two brackets. -/
theorem scans_between {P : List Token → Prop} {o : Char} {kind kind' : Token.Kind} (ho : o ∈ marks)
    (hopen : punctuation? o = some kind) (hc : c ∈ marks) (hclose : punctuation? c = some kind')
    (h : ∀ p rest, Breaks rest → ∃ toks, P toks ∧ Scans p cs toks rest) (p : Position)
    (rest : List Char) :
    ∃ t toks u, P toks ∧ t.kind = kind ∧ u.kind = kind' ∧
      Scans p (o :: cs ++ [c]) (t :: (toks ++ [u])) rest := by
  obtain ⟨toks, htoks, hscan⟩ := h (p.advance [o]) ([c] ++ rest) (breaks_mark hc)
  exact ⟨_, toks, _, htoks, rfl, rfl,
    (scans_mark ho hopen).append (hscan.append (scans_mark hc hclose))⟩

theorem scans_parens {P : List Token → Prop}
    (h : ∀ p rest, Breaks rest → ∃ toks, P toks ∧ Scans p cs toks rest) (p : Position)
    (rest : List Char) :
    ∃ t toks u, P toks ∧ t.kind = .lparen ∧ u.kind = .rparen ∧
      Scans p ('(' :: cs ++ [')']) (t :: (toks ++ [u])) rest :=
  scans_between (by decide) rfl (by decide) rfl h p rest

/-- A run of characters of a class ends where a text begins that does not go on with it. -/
theorem span_append {P : Char → Bool} (hcs : ∀ c ∈ cs, P c = true)
    (hrest : ∀ c, rest.head? = some c → P c = false) :
    (cs ++ rest).takeWhile P = cs ∧ (cs ++ rest).dropWhile P = rest := by
  rw [List.takeWhile_append_of_pos hcs, List.dropWhile_append_of_pos hcs]
  cases rest with
  | nil => exact ⟨List.append_nil cs, rfl⟩
  | cons c rest =>
    have hc : ¬ P c = true := by simp [hrest c rfl]
    rw [List.takeWhile_cons_of_neg hc, List.dropWhile_cons_of_neg hc]
    exact ⟨List.append_nil cs, rfl⟩

theorem isDigit_of_continuesName (h : continuesName c = false) : Text.isDigit c = false := by
  simp only [continuesName, Text.isNumeric, Bool.or_eq_false_iff] at h
  exact h.1.2.1

/-- The characters that operators and punctuation marks begin with. -/
def markStarts : List Char :=
  ['+', '-', '*', '/', '%', '^', '<', '>', '=', '!', ',', ';', '(', ')', '[', ']']

/-- A character of a class without marks begins neither an operator nor a punctuation mark. -/
theorem not_mark_of_class {P : Char → Bool} (h : P c = true)
    (hP : markStarts.all (fun d => !P d) = true) :
    pairsWithEquals c = false ∧ isOperator c = false ∧ punctuation? c = none := by
  have hne : ∀ d ∈ markStarts, c ≠ d := by
    intro d hd
    have hd := List.all_eq_true.mp hP d hd
    exact Text.ne_of_class h (by simpa using hd)
  refine ⟨?_, ?_, ?_⟩
  · simp [pairsWithEquals, hne '<' (by decide), hne '>' (by decide), hne '=' (by decide),
      hne '!' (by decide)]
  · simp [isOperator, hne '+' (by decide), hne '-' (by decide), hne '*' (by decide),
      hne '/' (by decide), hne '%' (by decide), hne '^' (by decide), hne '<' (by decide),
      hne '>' (by decide)]
  · simp [punctuation?, hne '=' (by decide), hne ',' (by decide), hne ';' (by decide),
      hne '(' (by decide), hne ')' (by decide), hne '[' (by decide), hne ']' (by decide)]

theorem numeral_digits (h : ∀ c ∈ cs, c.isDigit = true) (hrest : Breaks rest) :
    numeral (cs ++ rest) = ⟨.number, cs, rest⟩ := by
  obtain ⟨htake, hdrop⟩ := span_append (fun c hc => Text.isDigit_of_isDigit (h c hc))
    fun c hc => isDigit_of_continuesName (hrest c hc).1
  unfold numeral
  rw [htake, hdrop]
  split
  · exact absurd rfl (hrest '.' rfl).2
  · rfl

theorem numeral_magnitudeText (n : Nat) (hrest : Breaks rest) :
    numeral (Number.magnitudeText n ++ rest) = ⟨.number, Number.magnitudeText n, rest⟩ := by
  have hwhole : ∀ c ∈ Nat.toDigits 10 (n / 10000), c.isDigit = true :=
    fun c => Number.isDigit_of_mem_toDigits
  rcases Number.magnitudeText_cases n with ⟨_, htext⟩ | ⟨fraction, htext, _, _, hfraction, _⟩
  · rw [htext]
    exact numeral_digits hwhole hrest
  · have hpoint : ∀ c, ('.' :: (fraction ++ rest)).head? = some c → Text.isDigit c = false := by
      intro c hc
      obtain rfl := Option.some.inj hc
      decide
    obtain ⟨htake, hdrop⟩ := span_append (fun c hc => Text.isDigit_of_isDigit (hwhole c hc)) hpoint
    obtain ⟨htake', hdrop'⟩ := span_append (fun c hc => Text.isDigit_of_isDigit (hfraction c hc))
      fun c hc => isDigit_of_continuesName (hrest c hc).1
    unfold numeral
    rw [htext, List.append_assoc, List.cons_append, htake, hdrop]
    simp only [htake', hdrop']

/-- A numeral at the front of a text, which begins with a digit, is a token. -/
theorem scans_of_numeral (hc : c.isDigit = true)
    (h : numeral (c :: cs ++ rest) = ⟨.number, c :: cs, rest⟩) :
    Scans p (c :: cs) [⟨.number, String.ofList (c :: cs), p⟩] rest := by
  obtain ⟨hpair, hoperator, hpunctuation⟩ := not_mark_of_class hc (by decide)
  refine scans_lexeme (Text.isSpace_of_isDigit hc) (startsComment_of_isOperator hoperator) ?_
  rw [List.cons_append] at h
  simp only [lexeme?, hpair, Bool.false_and, hoperator, Bool.false_eq_true, if_false, hpunctuation,
    Text.isDigit_of_isDigit hc, if_true, h]

theorem scans_numeral (n : Nat) (hrest : Breaks rest) :
    Scans p (Number.magnitudeText n) [⟨.number, String.ofList (Number.magnitudeText n), p⟩] rest := by
  have hnumeral := numeral_magnitudeText n hrest
  obtain ⟨c, cs, hcs, hc⟩ := Number.magnitudeText_eq_cons n
  rw [hcs] at hnumeral ⊢
  exact scans_of_numeral hc hnumeral

theorem scans_digits (hne : cs ≠ []) (h : ∀ c ∈ cs, c.isDigit = true) (hrest : Breaks rest) :
    Scans p cs [⟨.number, String.ofList cs, p⟩] rest := by
  obtain ⟨c, cs, rfl⟩ := List.exists_cons_of_ne_nil hne
  exact scans_of_numeral (h c List.mem_cons_self) (numeral_digits h hrest)

/-- **What a name is made of**: no mark, blank or digit at its front, and characters that continue it
behind that. -/
structure SpellsName (c : Char) (cs : List Char) : Prop where
  space : Text.isSpace c = false
  operator : isOperator c = false
  punctuation : punctuation? c = none
  digit : Text.isDigit c = false
  start : startsName c = true
  more : cs.all continuesName = true

instance (c : Char) (cs : List Char) : Decidable (SpellsName c cs) :=
  decidable_of_iff
    (Text.isSpace c = false ∧ isOperator c = false ∧ punctuation? c = none ∧
      Text.isDigit c = false ∧ startsName c = true ∧ cs.all continuesName = true)
    ⟨fun ⟨h₁, h₂, h₃, h₄, h₅, h₆⟩ => ⟨h₁, h₂, h₃, h₄, h₅, h₆⟩,
      fun h => ⟨h.space, h.operator, h.punctuation, h.digit, h.start, h.more⟩⟩

theorem scans_name (h : SpellsName c cs) (hrest : Breaks rest) :
    Scans p (c :: cs) [⟨.ident, String.ofList (c :: cs), p⟩] rest := by
  refine scans_lexeme h.space (startsComment_of_isOperator h.operator) ?_
  obtain ⟨htake, hdrop⟩ := span_append (List.all_eq_true.mp h.more) fun d hd => (hrest d hd).1
  obtain ⟨hpairs, _, _⟩ := not_mark_of_class h.start (by decide)
  simp only [lexeme?, hpairs, Bool.false_and, h.operator,
    Bool.false_eq_true, if_false, h.punctuation, h.digit, h.start, if_true, htake, hdrop]

/-! ## The tokens of a text, one by one -/

/-- **Induction along a text**, whether it is scanned to its end or refused: what holds at its end and where
no token begins, and is kept when white space, a comment or a token is put before it, holds of the whole
text. -/
theorem tokensFrom_outcome {P : Position → List Char → Except LexError (List Token) → Prop}
    (stop : ∀ p, P p [] (.ok [⟨.eof, "", p⟩]))
    (space : ∀ p c rest r, Text.isSpace c = true → P (p.next c) rest r → P p (c :: rest) r)
    (comment : ∀ p c rest r, startsComment (c :: rest) = true →
      P (p.advance (c :: rest.takeWhile (· ≠ '\n'))) (rest.dropWhile (· ≠ '\n')) r → P p (c :: rest) r)
    (refuse : ∀ p c rest, Text.isSpace c = false → startsComment (c :: rest) = false →
      lexeme? (c :: rest) = none → P p (c :: rest) (.error ⟨c, p⟩))
    (token : ∀ p c rest l r, Text.isSpace c = false → startsComment (c :: rest) = false →
      lexeme? (c :: rest) = some l → P (p.advance l.text) l.rest r →
        P p (c :: rest) (r.map (⟨l.kind, String.ofList l.text, p⟩ :: ·)))
    (p : Position) (cs : List Char) : P p cs (tokensFrom p cs) := by
  induction p, cs using tokensFrom.induct with
  | case1 p =>
    rw [tokensFrom]
    exact stop p
  | case2 p c rest hspace ih =>
    rw [tokensFrom, if_pos hspace]
    exact space p c rest _ hspace ih
  | case3 p c rest hspace hcomment ih =>
    rw [tokensFrom, if_neg hspace, if_pos hcomment]
    exact comment p c rest _ hcomment ih
  | case4 p c rest hspace hcomment hnone =>
    rw [tokensFrom, if_neg hspace, if_neg hcomment]
    split
    · exact refuse p c rest (eq_false_of_ne_true hspace) (eq_false_of_ne_true hcomment) hnone
    · rename_i hl
      rw [hnone] at hl
      cases hl
  | case5 p c rest hspace hcomment l hl ih =>
    have htoken := token p c rest l _ (eq_false_of_ne_true hspace) (eq_false_of_ne_true hcomment) hl ih
    rw [tokensFrom, if_neg hspace, if_neg hcomment]
    split
    · rename_i hnone
      rw [hnone] at hl
      cases hl
    · rename_i l' hl'
      obtain rfl := Option.some.inj (hl.symm.trans hl')
      cases hr : tokensFrom (p.advance l.text) l.rest with
      | error e =>
        rw [hr] at htoken
        exact htoken
      | ok more =>
        rw [hr] at htoken
        exact htoken

/-- **Induction along the tokens of a text** that is scanned to its end. -/
theorem tokensFrom_induction {P : Position → List Char → List Token → Prop}
    (stop : ∀ p, P p [] [⟨.eof, "", p⟩])
    (space : ∀ p c rest toks, Text.isSpace c = true → P (p.next c) rest toks → P p (c :: rest) toks)
    (comment : ∀ p c rest toks, startsComment (c :: rest) = true →
      P (p.advance (c :: rest.takeWhile (· ≠ '\n'))) (rest.dropWhile (· ≠ '\n')) toks →
        P p (c :: rest) toks)
    (token : ∀ p c rest l toks, Text.isSpace c = false → startsComment (c :: rest) = false →
      lexeme? (c :: rest) = some l → P (p.advance l.text) l.rest toks →
        P p (c :: rest) (⟨l.kind, String.ofList l.text, p⟩ :: toks))
    (h : tokensFrom p cs = .ok toks) : P p cs toks := by
  have hall := tokensFrom_outcome (P := fun p cs r => ∀ toks, r = .ok toks → P p cs toks)
    ?_ ?_ ?_ ?_ ?_ p cs
  · exact hall toks h
  · intro p _ h
    obtain rfl := Except.ok.inj h
    exact stop p
  · intro p c rest r hspace ih toks h
    exact space p c rest toks hspace (ih toks h)
  · intro p c rest r hcomment ih toks h
    exact comment p c rest toks hcomment (ih toks h)
  · intro p c rest _ _ _ toks h
    cases h
  · intro p c rest l r hspace hcomment hl ih toks h
    cases r with
    | error e => cases h
    | ok more =>
      obtain rfl := Except.ok.inj h
      exact token p c rest l more hspace hcomment hl (ih more rfl)

/-- No token is longer than the text it comes from. -/
theorem length_text_le (h : tokensFrom p cs = .ok toks) : ∀ t ∈ toks, t.text.length ≤ cs.length := by
  refine tokensFrom_induction (P := fun _ cs toks => ∀ t ∈ toks, t.text.length ≤ cs.length)
    ?_ ?_ ?_ ?_ h
  · simp
  · intro p c rest toks _ ih t ht
    exact Nat.le_succ_of_le (ih t ht)
  · intro p c rest toks _ ih t ht
    have hle := (List.dropWhile_sublist (p := (· ≠ '\n')) (l := rest)).length_le
    exact Nat.le_trans (ih t ht) (Nat.le_succ_of_le hle)
  · intro p c rest l toks _ _ hl ih t ht
    -- the token and what is left of the text share its length
    have hlen := congrArg List.length (lexeme?_append hl)
    rw [List.length_append] at hlen
    rcases List.mem_cons.mp ht with rfl | ht
    · rw [String.length_ofList]
      omega
    · exact Nat.le_trans (ih t ht) (by omega)

/-- **What a token can be**: an operator, a punctuation mark, a numeral or a name, depending on the
character it begins with. -/
theorem lexeme?_cases {l : Lexeme} (hspace : Text.isSpace c = false)
    (h : lexeme? (c :: rest) = some l) :
    (l.kind = .op ∧ (isOperator c = true ∨ pairsWithEquals c = true) ∧ ∃ cs, l.text = c :: cs) ∨
      punctuation? c = some l.kind ∨
      (l.kind = .number ∧ isOperator c = false ∧ ∃ cs, l.text = c :: cs) ∨
      (l.kind = .ident ∧ ∃ cs, l.text = c :: cs ∧ SpellsName c cs) := by
  simp only [lexeme?] at h
  split at h
  · rename_i hpair
    cases h
    exact Or.inl ⟨rfl, Or.inr (Bool.and_eq_true_iff.mp hpair).1, _, rfl⟩
  split at h
  · rename_i hoperator
    cases h
    exact Or.inl ⟨rfl, Or.inl hoperator, _, rfl⟩
  rename_i hoperator
  split at h
  · rename_i kind hkind
    cases h
    exact Or.inr (Or.inl hkind)
  rename_i hpunctuation
  split at h
  · rename_i hdigit
    cases h
    refine Or.inr (Or.inr (Or.inl ⟨?_, eq_false_of_ne_true hoperator, ?_⟩))
    · unfold numeral
      split <;> rfl
    · unfold numeral
      rw [List.takeWhile_cons_of_pos hdigit]
      split
      · exact ⟨_, List.cons_append⟩
      · exact ⟨_, rfl⟩
  rename_i hdigit
  split at h
  · rename_i hstart
    cases h
    refine Or.inr (Or.inr (Or.inr ⟨rfl, _, rfl, hspace, eq_false_of_ne_true hoperator, ?_,
      eq_false_of_ne_true hdigit, hstart, List.all_takeWhile⟩))
    exact Option.eq_none_iff_forall_ne_some.mpr fun kind hkind => hpunctuation kind hkind
  · cases h

/-- The kinds of punctuation marks. -/
theorem punctuation?_kind {kind : Token.Kind} (h : punctuation? c = some kind) :
    kind ≠ .ident ∧ kind ≠ .number ∧ kind ≠ .op ∧ kind ≠ .eof := by
  unfold punctuation? at h
  repeat' split at h
  all_goals first
    | (cases h; decide)
    | cases h

/-- **A token as it is split off a text.** -/
def Scanned (t : Token) : Prop :=
  ∃ c rest l, Text.isSpace c = false ∧ lexeme? (c :: rest) = some l ∧ t.kind = l.kind ∧
    t.text = String.ofList l.text

namespace Scanned

variable {t : Token}

theorem kind_ne_eof (h : Scanned t) : t.kind ≠ .eof := by
  obtain ⟨c, rest, l, hspace, hl, hkind, _⟩ := h
  rw [hkind]
  rcases lexeme?_cases hspace hl with ⟨hop, _⟩ | hmark | ⟨hnumber, _⟩ | ⟨hident, _⟩
  · simp [hop]
  · exact (punctuation?_kind hmark).2.2.2
  · simp [hnumber]
  · simp [hident]

/-- A token of the kind of a name spells one. -/
theorem spellsName (h : Scanned t) (ht : t.kind = .ident) :
    ∃ c cs, t.text.toList = c :: cs ∧ SpellsName c cs := by
  obtain ⟨c, rest, l, hspace, hl, hkind, htext⟩ := h
  rw [hkind] at ht
  rcases lexeme?_cases hspace hl with ⟨hop, _⟩ | hmark | ⟨hnumber, _⟩ | ⟨_, cs, hcs, hname⟩
  · simp [hop] at ht
  · exact absurd ht (punctuation?_kind hmark).1
  · simp [hnumber] at ht
  · exact ⟨c, cs, by rw [htext, hcs, String.toList_ofList], hname⟩

/-- An operator begins with a mark. -/
theorem operator (h : Scanned t) (ht : t.kind = .op) :
    ∃ c cs, t.text.toList = c :: cs ∧ (isOperator c = true ∨ pairsWithEquals c = true) := by
  obtain ⟨c, rest, l, hspace, hl, hkind, htext⟩ := h
  rw [hkind] at ht
  rcases lexeme?_cases hspace hl with ⟨_, hc, cs, hcs⟩ | hmark | ⟨hnumber, _⟩ | ⟨hident, _⟩
  · exact ⟨c, cs, by rw [htext, hcs, String.toList_ofList], hc⟩
  · exact absurd ht (punctuation?_kind hmark).2.2.1
  · simp [hnumber] at ht
  · simp [hident] at ht

/-- A numeral begins neither with white space nor with a mark. -/
theorem numeral (h : Scanned t) (ht : t.kind = .number) :
    ∃ c cs, t.text.toList = c :: cs ∧ Text.isSpace c = false ∧ isOperator c = false := by
  obtain ⟨c, rest, l, hspace, hl, hkind, htext⟩ := h
  rw [hkind] at ht
  rcases lexeme?_cases hspace hl with ⟨hop, _⟩ | hmark | ⟨_, hc, cs, hcs⟩ | ⟨hident, _⟩
  · simp [hop] at ht
  · exact absurd ht (punctuation?_kind hmark).2.1
  · exact ⟨c, cs, by rw [htext, hcs, String.toList_ofList], hspace, hc⟩
  · simp [hident] at ht

end Scanned

/-- **The tokens of a text**: those that were split off it, and the end. -/
theorem scanned_of_tokensFrom (h : tokensFrom p cs = .ok toks) :
    ∃ body q, toks = body ++ [⟨.eof, "", q⟩] ∧ ∀ t ∈ body, Scanned t := by
  refine tokensFrom_induction (P := fun _ _ toks =>
    ∃ body q, toks = body ++ [⟨.eof, "", q⟩] ∧ ∀ t ∈ body, Scanned t) ?_ ?_ ?_ ?_ h
  · intro p
    exact ⟨[], p, rfl, by simp⟩
  · intro p c rest toks _ ih
    exact ih
  · intro p c rest toks _ ih
    exact ih
  · intro p c rest l toks hspace _ hl ih
    obtain ⟨body, q, rfl, hbody⟩ := ih
    refine ⟨_ :: body, q, rfl, List.forall_mem_cons.mpr ⟨?_, hbody⟩⟩
    exact ⟨c, rest, l, hspace, hl, rfl, rfl⟩

end Straightline.Lexer

namespace Straightline

open Lexer

/-- The tokens of a text that is scanned on its own. -/
theorem Lexer.Scans.tokenize {cs : List Char} {toks : List Token} (h : Scans .start cs toks []) :
    ∃ q, tokenize (String.ofList cs) = .ok (toks ++ [⟨.eof, "", q⟩]) := by
  unfold Scans at h
  rw [List.append_nil] at h
  refine ⟨Position.start.advance cs, ?_⟩
  rw [Straightline.tokenize, String.toList_ofList, h, tokensFrom]
  rfl

/-- **A text that is scanned as a single name.** -/
def IsName (x : String) : Prop := ∃ p, tokenize x = .ok [⟨.ident, x, .start⟩, ⟨.eof, "", p⟩]

theorem isName_iff {x : String} : IsName x ↔ ∃ c cs, x.toList = c :: cs ∧ SpellsName c cs := by
  constructor
  · rintro ⟨q, h⟩
    rw [tokenize] at h
    cases hx : x.toList with
    | nil =>
      rw [hx, tokensFrom] at h
      cases h
    | cons c cs =>
      refine ⟨c, cs, rfl, ?_⟩
      have hlen : x.length = cs.length + 1 := by
        rw [← String.length_toList, hx, List.length_cons]
      -- the token is as long as the text, so that nothing before it was skipped
      have hwhole : ∀ {p ds}, tokensFrom p ds = .ok [⟨.ident, x, .start⟩, ⟨.eof, "", q⟩] →
          cs.length < ds.length := by
        intro p ds hds
        have hle := length_text_le hds _ List.mem_cons_self
        simp only [hlen] at hle
        exact hle
      rw [hx, tokensFrom] at h
      split at h
      · exact absurd (hwhole h) (Nat.lt_irrefl _)
      split at h
      · have hle := (List.dropWhile_sublist (p := (· ≠ '\n')) (l := cs)).length_le
        exact absurd (hwhole h) (Nat.not_lt.mpr hle)
      rename_i hspace hcomment
      split at h
      · cases h
      · rename_i l hl
        obtain ⟨more, _, h⟩ := bind_eq_ok.mp h
        have htok := (List.cons.inj (Except.ok.inj h)).1
        have hscanned : Scanned ⟨.ident, x, .start⟩ :=
          ⟨c, cs, l, eq_false_of_ne_true hspace, hl, (congrArg Token.kind htok).symm,
            (congrArg Token.text htok).symm⟩
        obtain ⟨d, ds, hds, hname⟩ := hscanned.spellsName rfl
        obtain ⟨rfl, rfl⟩ := List.cons.inj (hx.symm.trans hds)
        exact hname
  · rintro ⟨c, cs, hx, hname⟩
    have hofList : String.ofList (c :: cs) = x := by rw [← hx, String.ofList_toList]
    obtain ⟨q, htokens⟩ := (scans_name (p := .start) hname breaks_nil).tokenize
    rw [hofList] at htokens
    exact ⟨q, htokens⟩

theorem IsName.scans {x : String} {p : Position} {rest : List Char} (h : IsName x) (hrest : Breaks rest) :
    Scans p x.toList [⟨.ident, x, p⟩] rest := by
  obtain ⟨c, cs, hx, hname⟩ := isName_iff.mp h
  have hscan := scans_name (p := p) hname hrest
  rw [← hx, String.ofList_toList] at hscan
  exact hscan

theorem Lexer.Scanned.isName {t : Token} (h : Scanned t) (ht : t.kind = .ident) : IsName t.text :=
  isName_iff.mpr (h.spellsName ht)

instance (x : String) : Decidable (IsName x) :=
  match hx : x.toList with
  | [] => isFalse fun h => by
    obtain ⟨c, cs, hcs, _⟩ := isName_iff.mp h
    rw [hx] at hcs
    cases hcs
  | c :: cs => decidable_of_iff (SpellsName c cs)
    ⟨fun h => isName_iff.mpr ⟨c, cs, hx, h⟩, fun h => by
      obtain ⟨d, ds, hds, hname⟩ := isName_iff.mp h
      rw [hx] at hds
      cases hds
      exact hname⟩

/-! ## The parts of a statement -/

variable {p : Position} {cs rest : List Char}

theorem scans_blank : Scans p [' '] [] rest := scans_space (by decide)

/-- The word of a statement, with the blank behind it. -/
theorem scans_word (word : String) (h : IsName word) :
    Scans p (word.toList ++ [' ']) [⟨.ident, word, p⟩] rest :=
  (h.scans (breaks_cons (by decide) (by decide))).append scans_blank

theorem scans_equals (p : Position) (rest : List Char) :
    ∃ q, q.kind = .assign ∧ Scans p " = ".toList [q] rest := by
  have hequals : Scans (p.advance [' ']) ['='] [⟨.assign, "=", p.advance [' ']⟩] ([' '] ++ rest) :=
    scans_punctuation (by decide) (by decide) (by decide) fun _ => parts_cons (by decide) (by decide)
  exact ⟨_, rfl, scans_blank.append (hequals.append scans_blank)⟩

/-! ## Operators -/

open Grammar

theorem eq_token_of_prefixOp? {op : PrefixOp} {x : String} (h : PrefixOp.ofToken? x = some op) :
    x = op.token := by
  have hfound := List.find?_some h
  exact (of_decide_eq_true hfound).symm

theorem eq_token_of_infixOp? {op : InfixOp} {x : String} (h : InfixOp.ofToken? x = some op) :
    x = op.token := by
  have hfound := List.find?_some h
  exact (of_decide_eq_true hfound).symm

theorem prefixOp?_token (op : PrefixOp) (p : Position) :
    prefixOp? ⟨if op.isWord then .ident else .op, op.token, p⟩ = some op := by
  cases op <;> rfl

theorem infixOp?_token (op : InfixOp) (p : Position) :
    infixOp? ⟨if op.isWord then .ident else .op, op.token, p⟩ = some op := by
  cases op <;> rfl

/-- The words among the operators are names. -/
theorem scans_prefixToken (op : PrefixOp) (hrest : if op.isWord then Breaks rest else Parts rest) :
    Scans p op.token.toList [⟨if op.isWord then .ident else .op, op.token, p⟩] rest := by
  cases op with
  | neg => exact scans_operator (by decide) (by decide) hrest
  | _ => exact scans_name ⟨by decide, by decide, by decide, by decide, by decide, by decide⟩ hrest

theorem scans_prefixOp (op : PrefixOp) (hrest : if op.isWord then Breaks rest else Parts rest) :
    ∃ t, prefixOp? t = some op ∧ Scans p op.token.toList [t] rest :=
  ⟨_, prefixOp?_token op p, scans_prefixToken op hrest⟩

theorem scans_infixToken (op : InfixOp) (hrest : if op.isWord then Breaks rest else Parts rest) :
    Scans p op.token.toList [⟨if op.isWord then .ident else .op, op.token, p⟩] rest := by
  cases op with
  | le | ge | eq | ne => exact scans_pair (by decide) (by decide)
  | and | or =>
    exact scans_name ⟨by decide, by decide, by decide, by decide, by decide, by decide⟩ hrest
  | _ => exact scans_operator (by decide) (by decide) hrest

theorem scans_infixOp (op : InfixOp) (hrest : if op.isWord then Breaks rest else Parts rest) :
    ∃ t, infixOp? t = some op ∧ Scans p op.token.toList [t] rest :=
  ⟨_, infixOp?_token op p, scans_infixToken op hrest⟩

/-- A text whose first character keeps an operator before it as it is. -/
def Leads (cs : List Char) : Prop := ∃ c ds, cs = c :: ds ∧ c ≠ '=' ∧ c ≠ '/'

theorem Leads.parts (h : Leads cs) : Parts (cs ++ rest) := by
  obtain ⟨c, ds, rfl, hne, hne'⟩ := h
  exact parts_cons hne hne'

theorem Leads.append (h : Leads cs) (ds : List Char) : Leads (cs ++ ds) := by
  obtain ⟨c, cs, rfl, hne, hne'⟩ := h
  exact ⟨c, cs ++ ds, rfl, hne, hne'⟩

theorem IsName.leads {x : String} (h : IsName x) : Leads x.toList := by
  obtain ⟨c, cs, hx, hname⟩ := isName_iff.mp h
  have hne : ∀ d, startsName d = false → c ≠ d := fun d => Text.ne_of_class hname.start
  exact ⟨c, cs, hx, hne '=' (by decide), hne '/' (by decide)⟩

theorem leads_magnitudeText (n : Nat) : Leads (Number.magnitudeText n) := by
  obtain ⟨c, cs, hcs, hc⟩ := Number.magnitudeText_eq_cons n
  have hne : ∀ d : Char, d.isDigit = false → c ≠ d := fun d => Text.ne_of_class hc
  exact ⟨c, cs, hcs, hne '=' (by decide), hne '/' (by decide)⟩

theorem leads_token (op : PrefixOp) : Leads op.token.toList := by
  cases op <;> exact ⟨_, _, rfl, by decide, by decide⟩

/-- A blank or an opening parenthesis may follow any operator. -/
theorem follows_of_eq {c : Char} (h : c = ' ' ∨ c = '(') (word : Bool) :
    if word then Breaks (c :: rest) else Parts (c :: rest) := by
  cases word with
  | true =>
    rcases h with rfl | rfl
    · exact breaks_cons (by decide) (by decide)
    · exact breaks_cons (by decide) (by decide)
  | false =>
    rcases h with rfl | rfl
    · exact parts_cons (by decide) (by decide)
    · exact parts_cons (by decide) (by decide)

end Straightline
