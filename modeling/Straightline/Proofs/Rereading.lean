import Straightline.Proofs.Accepting
import Straightline.Proofs.Arithmetic
import Straightline.Source.Printer

/-!
# Printed source text reads back

A program that was read from a text can be printed, and its text is read as the same program but for
one thing: a minus sign before a literal that is not negative.  Such a negation was written with
parentheses, as `-(1)`.  Its text is `-1`, and there the sign belongs to the numeral.  `Expr.collapse`
says what becomes of it.

The proof follows the grammar: the tree of every phrase has a text whose tokens derive the collapsed
tree.  No more is needed of the tree than that it was derived from the tokens of a text.
-/

namespace Straightline.Source

open Lexer Grammar Printer

/-! ## Negated literals -/

mutual

/-- **An expression with its minus signs taken into the literals** that they stand before.  A literal
that is negative already keeps the sign apart. -/
def Expr.collapse : Expr → Expr
  | .literal n => .literal n
  | .ident x => .ident x
  | .unary .neg (.literal n) => if 0 ≤ n.raw then .literal n.neg else .unary .neg (.literal n)
  | .unary op e => .unary op e.collapse
  | .binary l op r => .binary l.collapse op r.collapse
  | .call f args => .call f (collapseAll args)
  | .fold op args => .fold op (collapseAll args)
  | .array items => .array (collapseAll items)
  | .stray node => .stray node

/-- Several expressions with their minus signs taken into the literals. -/
def collapseAll : List Expr → List Expr
  | [] => []
  | e :: es => e.collapse :: collapseAll es

end

/-- A statement with the minus signs of its expression taken into the literals. -/
def Stmt.collapse : Stmt → Stmt
  | .define f params body => .define f params body.collapse
  | .letVar x e => .letVar x e.collapse
  | s => s

/-- A minus sign that stands before a literal which is not negative. -/
def Signs (op : PrefixOp) (e : Expr) : Prop := op = .neg ∧ ∃ n, e = .literal n ∧ 0 ≤ n.raw

variable {op : PrefixOp} {e l r : Expr} {es : List Expr} {n : Number}

theorem collapse_signed (h : 0 ≤ n.raw) :
    (Expr.unary .neg (.literal n)).collapse = .literal n.neg := by
  rw [Expr.collapse, if_pos h]

theorem collapse_unary (h : ¬ Signs op e) : (Expr.unary op e).collapse = .unary op e.collapse := by
  by_cases hneg : op = .neg
  · subst hneg
    cases e with
    | literal n =>
      have hn : ¬ 0 ≤ n.raw := fun hn => h ⟨rfl, n, rfl, hn⟩
      simp [Expr.collapse, hn]
    | _ => simp [Expr.collapse]
  · rw [Expr.collapse]
    exact fun n hop _ => hneg hop

/-! ## The tokens of expressions -/

variable {p : Position} {rest text left right : List Char} {texts : List (List Char)}
  {toks : List Token}

/-- **What the text of an expression is like**: how it begins as an operand, and the tokens it is
scanned as.  They derive the collapsed expression, and they begin with a numeral only if the expression
is a literal that is not negative. -/
structure Worded (e : Expr) (text : List Char) : Prop where
  prints : e.print? = some text
  leads : Leads (operandText e text)
  operand : ∀ p rest, Breaks rest → ∃ toks, Derives (.unary e.collapse) toks ∧
    (BeginsWithNumeral toks → ∃ n, e = .literal n ∧ 0 ≤ n.raw) ∧
    Scans p (operandText e text) toks rest
  whole : ∀ p rest, Breaks rest → ∃ toks, Derives (.tier .disjunction e.collapse) toks ∧
    Scans p text toks rest

/-- An expression that is never put in parentheses. -/
theorem Worded.of_bare (hprints : e.print? = some text) (hbare : wraps e = false) (hleads : Leads text)
    (h : ∀ p rest, Breaks rest → ∃ toks, Derives (.unary e.collapse) toks ∧
      (BeginsWithNumeral toks → ∃ n, e = .literal n ∧ 0 ≤ n.raw) ∧ Scans p text toks rest) :
    Worded e text := by
  have htext : operandText e text = text := by simp [operandText, hbare]
  refine ⟨hprints, htext.symm ▸ hleads, htext.symm ▸ h, fun p rest hrest => ?_⟩
  obtain ⟨toks, htoks, -, hscan⟩ := h p rest hrest
  exact ⟨toks, htoks.of_unary _, hscan⟩

theorem beginsWithNumeral_cons {t : Token} : BeginsWithNumeral (t :: toks) ↔ t.kind = .number := by
  constructor
  · rintro ⟨u, us, heq, hu⟩
    rwa [(List.cons.inj heq).1]
  · exact fun h => ⟨t, toks, rfl, h⟩

/-- A primary expression other than a numeral. -/
theorem Worded.of_primary (hprints : e.print? = some text) (hbare : wraps e = false)
    (hleads : Leads text)
    (h : ∀ p rest, Breaks rest → ∃ t toks, Derives (.primary e.collapse) (t :: toks) ∧
      t.kind ≠ .number ∧ Scans p text (t :: toks) rest) : Worded e text := by
  refine .of_bare hprints hbare hleads fun p rest hrest => ?_
  obtain ⟨t, toks, htoks, ht, hscan⟩ := h p rest hrest
  exact ⟨t :: toks, .plain htoks, fun h => absurd (beginsWithNumeral_cons.mp h) ht, hscan⟩

/-! ### Literals and names -/

/-- A minus sign directly before a numeral. -/
theorem scans_signed (n : Number) (hrest : Breaks rest) :
    ∃ m t, Derives (.unary (.literal (.ofRaw (-n.raw.natAbs)))) [m, t] ∧ m.kind ≠ .number ∧
      Scans p ('-' :: Number.magnitudeText n.raw.natAbs) [m, t] rest := by
  have hparts : Parts (Number.magnitudeText n.raw.natAbs ++ rest) := (leads_magnitudeText _).parts
  have hminus := scans_prefixToken (p := p) .neg hparts
  refine ⟨_, _, ?_, by simp [PrefixOp.isWord], hminus.append (scans_numeral _ hrest)⟩
  exact .signed ⟨rfl, rfl⟩ rfl (Number.ofText_magnitudeText n) (Number.ofText_minus_magnitudeText n)

theorem toChars_of_nonneg (h : 0 ≤ n.raw) : n.toChars = Number.magnitudeText n.raw.natAbs := by
  rw [Number.toChars, if_neg (Int.not_lt.mpr h), List.nil_append]

theorem worded_literal (n : Number) : Worded (.literal n) n.toChars := by
  by_cases h : 0 ≤ n.raw
  · have htext := toChars_of_nonneg h
    refine .of_bare rfl rfl (htext ▸ leads_magnitudeText _) fun p rest hrest => ?_
    rw [htext]
    refine ⟨_, .plain (.numeral rfl ?_), fun _ => ⟨n, rfl, h⟩, scans_numeral _ hrest⟩
    rw [Number.ofText_magnitudeText, Int.natAbs_of_nonneg h, Number.ofRaw_raw]
  · have htext : n.toChars = '-' :: Number.magnitudeText n.raw.natAbs := by
      rw [Number.toChars, if_pos (Int.not_le.mp h), List.singleton_append]
    have hvalue : Number.ofRaw (-(n.raw.natAbs : Int)) = n := by
      rw [show -(n.raw.natAbs : Int) = n.raw by omega, Number.ofRaw_raw]
    refine .of_bare rfl rfl ⟨'-', _, htext, by decide, by decide⟩ fun p rest hrest => ?_
    obtain ⟨m, t, htoks, hm, hscan⟩ := scans_signed (p := p) n hrest
    rw [hvalue] at htoks
    exact ⟨[m, t], htoks, fun h => absurd (beginsWithNumeral_cons.mp h) hm, htext ▸ hscan⟩

theorem worded_ident {t : Token} (hscanned : Scanned t) (hfree : IsFree t) :
    Worded (.ident t.text) t.text.toList := by
  have hname := hscanned.isName hfree.1
  refine .of_primary rfl rfl hname.leads fun p rest hrest => ?_
  have hnamed : Derives (.primary (.ident t.text)) [⟨.ident, t.text, p⟩] :=
    .named (t := ⟨.ident, t.text, p⟩) ⟨rfl, hfree.2⟩
  exact ⟨_, [], hnamed, nofun, hname.scans hrest⟩

/-! ### Operators -/

/-- The text of a prefix operator and its operand. -/
def unaryText (op : PrefixOp) (e : Expr) (text : List Char) : List Char :=
  op.token.toList ++ (if op.isWord then [' '] else []) ++ operandText e text

/-- A minus sign before a literal is taken into it. -/
theorem worded_signed (h : 0 ≤ n.raw) :
    Worded (.unary .neg (.literal n)) (unaryText .neg (.literal n) n.toChars) := by
  have htext : unaryText .neg (.literal n) n.toChars = '-' :: Number.magnitudeText n.raw.natAbs := by
    rw [toChars_of_nonneg h]
    rfl
  refine .of_bare rfl rfl ⟨'-', _, htext, by decide, by decide⟩ fun p rest hrest => ?_
  obtain ⟨m, t, htoks, hm, hscan⟩ := scans_signed (p := p) n hrest
  rw [Int.natAbs_of_nonneg h] at htoks
  rw [collapse_signed h, htext]
  exact ⟨[m, t], htoks, fun h => absurd (beginsWithNumeral_cons.mp h) hm, hscan⟩

theorem Worded.unary (h : Worded e text) (op : PrefixOp) :
    Worded (.unary op e) (unaryText op e text) := by
  by_cases hsigns : Signs op e
  · obtain ⟨rfl, n, rfl, hn⟩ := hsigns
    obtain rfl := Option.some.inj h.prints
    exact worded_signed hn
  have hprints : (Expr.unary op e).print? = some (unaryText op e text) := by
    rw [Expr.print?, h.prints]
    rfl
  refine .of_bare hprints rfl ?_ fun p rest hrest => ?_
  · rw [unaryText, List.append_assoc]
    exact (leads_token op).append _
  rw [collapse_unary hsigns, unaryText]
  -- a blank keeps a word apart from its operand; a sign needs none
  have hjoint : Scans p (op.token.toList ++ if op.isWord then [' '] else [])
      [⟨if op.isWord then .ident else .op, op.token, p⟩] (operandText e text ++ rest) := by
    by_cases hword : op.isWord = true
    · rw [if_pos hword]
      exact (scans_prefixToken op (follows_of_eq (Or.inl rfl) op.isWord)).append scans_blank
    · have hparts : Parts (operandText e text ++ rest) := h.leads.parts
      rw [if_neg hword, List.append_nil]
      exact scans_prefixToken op (by rwa [if_neg hword])
  obtain ⟨toks, htoks, hnumeral, hscan⟩ := h.operand (p.advance
    (op.token.toList ++ if op.isWord then [' '] else [])) rest hrest
  refine ⟨_, .applied ⟨rfl, rfl⟩ ?_ htoks, ?_, hjoint.append hscan⟩
  · rintro rfl hbegins
    exact hsigns ⟨rfl, hnumeral hbegins⟩
  · intro hbegins
    have hkind := beginsWithNumeral_cons.mp hbegins
    split at hkind <;> cases hkind

theorem scans_infix (op : InfixOp) (hrest : if op.isWord then Breaks rest else Parts rest) :
    ∃ t, IsInfix op t ∧ Scans p op.token.toList [t] rest :=
  ⟨_, ⟨rfl, rfl⟩, scans_infixToken op hrest⟩

/-- The text of an infix operator between its operands. -/
def infixText (l : Expr) (left : List Char) (op : InfixOp) (r : Expr) (right : List Char) : List Char :=
  operandText l left ++ ([' '] ++ (op.token.toList ++ ([' '] ++ operandText r right)))

theorem Worded.binary (hl : Worded l left) (op : InfixOp) (hr : Worded r right) :
    Worded (.binary l op r) (infixText l left op r right) := by
  have hprints : (Expr.binary l op r).print? = some (infixText l left op r right) := by
    simp [Expr.print?, infixText, hl.prints, hr.prints]
  have hwhole : ∀ p rest, Breaks rest →
      ∃ toks, Derives (.tier .disjunction (.binary l.collapse op r.collapse)) toks ∧
        Scans p (infixText l left op r right) toks rest := by
    intro p rest hrest
    -- what an operand is printed as derives below the tiers, so it serves on either side of any operator
    obtain ⟨ls, hls, -, hleft⟩ := hl.operand p
      ([' '] ++ (op.token.toList ++ ([' '] ++ operandText r right)) ++ rest)
      (breaks_cons (by decide) (by decide))
    have hfollows : if op.isWord then Breaks ([' '] ++ operandText r right ++ rest)
        else Parts ([' '] ++ operandText r right ++ rest) := follows_of_eq (Or.inl rfl) op.isWord
    obtain ⟨t, ht, hop⟩ :=
      scans_infix (p := (p.advance (operandText l left)).advance [' ']) op hfollows
    obtain ⟨rs, hrs, -, hright⟩ := hr.operand
      ((((p.advance (operandText l left)).advance [' ']).advance op.token.toList).advance [' '])
      rest hrest
    have hbinary := Derives.binary ht (hls.left op) fun k _ => hrs.of_unary k
    exact ⟨_, hbinary.lower (Tier.height_pos _),
      hleft.append (scans_blank.append (hop.append (scans_blank.append hright)))⟩
  refine ⟨hprints, ⟨'(', _, rfl, by decide, by decide⟩, fun p rest _ => ?_, hwhole⟩
  obtain ⟨o, toks, c, htoks, ho, hc, hscan⟩ := scans_parens hwhole p rest
  refine ⟨_, .plain (.group ho htoks hc), fun h => ?_, hscan⟩
  simp [beginsWithNumeral_cons, ho] at h

/-! ### Lists -/

/-- What the texts of some expressions are like, which together are a phrase. -/
structure WordedList (phrase : List Expr → Phrase) (es : List Expr) (texts : List (List Char)) : Prop where
  prints : printAll? es = some texts
  scans : ∀ p rest, Breaks rest → ∃ toks, Derives (phrase (collapseAll es)) toks ∧
    Scans p (commaSeparated texts) toks rest

theorem scans_comma : Scans p [',', ' '] [⟨.comma, ",", p⟩] rest := by
  have hcomma : Scans p [','] [⟨.comma, ",", p⟩] ([' '] ++ rest) := scans_mark (by decide) rfl
  exact hcomma.append scans_blank

theorem commaSeparated_singleton (text : List Char) : commaSeparated [text] = text := by
  simp [commaSeparated]

theorem commaSeparated_cons (hne : texts ≠ []) (text : List Char) :
    commaSeparated (text :: texts) = text ++ ([',', ' '] ++ commaSeparated texts) := by
  cases texts with
  | nil => exact absurd rfl hne
  | cons next texts => simp [commaSeparated, List.intercalate_cons_cons]

theorem printAll?_cons (h : e.print? = some text) (hes : printAll? es = some texts) :
    printAll? (e :: es) = some (text :: texts) := by
  rw [printAll?, h, hes]
  rfl

theorem Worded.row (h : Worded e text) : WordedList .row [e] [text] := by
  refine ⟨printAll?_cons h.prints rfl, fun p rest hrest => ?_⟩
  obtain ⟨toks, htoks, hscan⟩ := h.whole p rest hrest
  rw [commaSeparated_singleton]
  exact ⟨toks, .single htoks, hscan⟩

theorem WordedList.cons (h : Worded e text) (hes : WordedList .row es texts) (hne : es ≠ []) :
    WordedList .row (e :: es) (text :: texts) := by
  refine ⟨printAll?_cons h.prints hes.prints, fun p rest hrest => ?_⟩
  have hprinted : texts ≠ [] := by
    rintro rfl
    cases es with
    | nil => exact hne rfl
    | cons e' es =>
      obtain ⟨text', -, hrest⟩ := Option.bind_eq_some_iff.mp hes.prints
      obtain ⟨texts', -, heq⟩ := Option.bind_eq_some_iff.mp hrest
      cases heq
  rw [commaSeparated_cons hprinted]
  obtain ⟨toks, htoks, hscan⟩ := h.whole p ([',', ' '] ++ commaSeparated texts ++ rest)
    (breaks_cons (by decide) (by decide))
  obtain ⟨more, hmore, hscan'⟩ := hes.scans ((p.advance text).advance [',', ' ']) rest hrest
  exact ⟨_, .more htoks rfl hmore, hscan.append (scans_comma.append hscan')⟩

theorem wordedList_nil : WordedList .arguments [] [] :=
  ⟨rfl, fun _ _ _ => ⟨[], .empty, Scans.nil⟩⟩

theorem WordedList.arguments (h : WordedList .row es texts) : WordedList .arguments es texts := by
  refine ⟨h.prints, fun p rest hrest => ?_⟩
  obtain ⟨toks, htoks, hscan⟩ := h.scans p rest hrest
  exact ⟨toks, .nonempty htoks, hscan⟩

/-- A name with arguments in parentheses, whatever it is the text of. -/
theorem worded_named {name : String} (hname : IsName name)
    (hprints : e.print? = some (callText name texts)) (hbare : wraps e = false)
    (h : WordedList .arguments es texts)
    (hderives : ∀ p o toks c, o.kind = .lparen → Derives (.arguments (collapseAll es)) toks →
      c.kind = .rparen → Derives (.primary e.collapse) (⟨.ident, name, p⟩ :: o :: (toks ++ [c]))) :
    Worded e (callText name texts) := by
  refine .of_primary hprints hbare (hname.leads.append _) fun p rest hrest => ?_
  obtain ⟨o, toks, c, htoks, ho, hc, hscan⟩ := scans_parens h.scans (p.advance name.toList) rest
  refine ⟨_, _, hderives p o toks c ho htoks hc, nofun, ?_⟩
  exact (hname.scans (breaks_cons (by decide) (by decide))).append hscan

theorem worded_call {t : Token} (hscanned : Scanned t) (hfree : IsFree t)
    (hname : FoldOp.ofName? t.text = none) (h : WordedList .arguments es texts) :
    Worded (.call t.text es) (callText t.text texts) := by
  have hprints : (Expr.call t.text es).print? = some (callText t.text texts) := by
    rw [Expr.print?, h.prints]
    rfl
  exact worded_named (hscanned.isName hfree.1) hprints rfl h fun p o toks c ho htoks hc =>
    .call (f := ⟨.ident, t.text, p⟩) ⟨rfl, hfree.2⟩ hname ho htoks hc

theorem isName_foldOp (fold : FoldOp) : IsName fold.name := by
  cases fold <;> decide

theorem worded_fold (fold : FoldOp) (h : WordedList .arguments es texts) :
    Worded (.fold fold.op es) (callText fold.name texts) := by
  have hprints : (Expr.fold fold.op es).print? = some (callText fold.name texts) := by
    rw [Expr.print?, fold.ofOp?_op, h.prints]
    rfl
  exact worded_named (isName_foldOp fold) hprints rfl h fun p o toks c ho htoks hc =>
    .fold rfl rfl ho htoks hc

theorem worded_array (h : WordedList .arguments es texts) :
    Worded (.array es) ('[' :: commaSeparated texts ++ [']']) := by
  have hprints : (Expr.array es).print? = some ('[' :: commaSeparated texts ++ [']']) := by
    rw [Expr.print?, h.prints]
    rfl
  refine .of_primary hprints rfl ⟨'[', _, rfl, by decide, by decide⟩ fun p rest _ => ?_
  obtain ⟨o, toks, c, htoks, ho, hc, hscan⟩ :=
    scans_between (o := '[') (c := ']') (by decide) rfl (by decide) rfl h.scans p rest
  exact ⟨o, _, .array ho htoks hc, by simp [ho], hscan⟩

/-! ### Phrases -/

/-- What the tree of a phrase has for its text. -/
def Rewords : Phrase → Prop
  | .tier _ e | .unary e | .primary e => ∃ text, Worded e text
  | .row es => ∃ texts, WordedList .row es texts
  | .arguments es => ∃ texts, WordedList .arguments es texts

theorem Derives.row_ne_nil (h : Derives (.row es) toks) : es ≠ [] := by
  cases h with
  | single | more => exact List.cons_ne_nil _ _

/-- **The tree of a phrase of a text** has a text whose tokens derive the collapsed tree. -/
theorem Derives.rewords {ph : Phrase} (h : Derives ph toks) (hscanned : ∀ t ∈ toks, Scanned t) :
    Rewords ph := by
  induction h with
  | operand _ _ ih | base _ ih | plain _ ih => exact ih hscanned
  | @fromLeft _ _ _ _ op _ _ _ _ _ _ _ _ ihl ihr =>
    obtain ⟨left, hl⟩ := ihl fun u hu => hscanned u (by simp [hu])
    obtain ⟨right, hr⟩ := ihr fun u hu => hscanned u (by simp [hu])
    exact ⟨_, hl.binary op hr⟩
  | fromRight _ _ _ ihl ihr =>
    obtain ⟨left, hl⟩ := ihl fun u hu => hscanned u (by simp [hu])
    obtain ⟨right, hr⟩ := ihr fun u hu => hscanned u (by simp [hu])
    exact ⟨_, hl.binary .pow hr⟩
  | @signed _ _ _ v | @numeral _ v => exact ⟨_, worded_literal v⟩
  | @applied op _ _ _ _ _ _ ih =>
    obtain ⟨text, h⟩ := ih fun u hu => hscanned u (by simp [hu])
    exact ⟨_, h.unary op⟩
  | named hfree => exact ⟨_, worded_ident (hscanned _ List.mem_cons_self) hfree⟩
  | call hfree hname _ _ _ ih =>
    obtain ⟨texts, h⟩ := ih fun u hu => hscanned u (by simp [hu])
    exact ⟨_, worded_call (hscanned _ List.mem_cons_self) hfree hname h⟩
  | @fold _ _ _ fold _ _ _ _ _ _ _ ih =>
    obtain ⟨texts, h⟩ := ih fun u hu => hscanned u (by simp [hu])
    exact ⟨_, worded_fold fold h⟩
  | array _ _ _ ih =>
    obtain ⟨texts, h⟩ := ih fun u hu => hscanned u (by simp [hu])
    exact ⟨_, worded_array h⟩
  | group _ _ _ ih => exact ih fun u hu => hscanned u (by simp [hu])
  | single _ ih =>
    obtain ⟨text, h⟩ := ih hscanned
    exact ⟨_, h.row⟩
  | more _ _ hothers ih ihs =>
    obtain ⟨text, h⟩ := ih fun u hu => hscanned u (by simp [hu])
    obtain ⟨texts, hs⟩ := ihs fun u hu => hscanned u (by simp [hu])
    exact ⟨_, .cons h hs hothers.row_ne_nil⟩
  | empty => exact ⟨_, wordedList_nil⟩
  | nonempty _ ih =>
    obtain ⟨texts, h⟩ := ih hscanned
    exact ⟨_, h.arguments⟩

/-! ## The tokens of programs -/

theorem DerivesNames.ne_nil {names : List String} (h : DerivesNames names toks) : names ≠ [] := by
  cases h with
  | single | more => exact List.cons_ne_nil _ _

theorem DerivesNames.rewords {names : List String} (h : DerivesNames names toks)
    (hscanned : ∀ t ∈ toks, Scanned t) :
    ∀ p rest, Breaks rest → ∃ toks, DerivesNames names toks ∧
      Scans p (commaSeparated (names.map String.toList)) toks rest := by
  induction h with
  | @single t ht =>
    intro p rest hrest
    rw [List.map_cons, List.map_nil, commaSeparated_singleton]
    have hname := (hscanned t List.mem_cons_self).isName ht
    exact ⟨_, .single (t := ⟨.ident, t.text, p⟩) rfl, hname.scans hrest⟩
  | @more t c names _ ht _ hothers ih =>
    intro p rest hrest
    have hname := (hscanned t List.mem_cons_self).isName ht
    have hprinted : names.map String.toList ≠ [] := by simpa using hothers.ne_nil
    rw [List.map_cons, commaSeparated_cons hprinted]
    obtain ⟨more, hmore, hscan⟩ := ih (fun u hu => hscanned u (by simp [hu]))
      ((p.advance t.text.toList).advance [',', ' ']) rest hrest
    exact ⟨_, .more (t := ⟨.ident, t.text, p⟩) rfl rfl hmore,
      (hname.scans (breaks_mark (by decide))).append (scans_comma.append hscan)⟩

theorem DerivesParams.rewords {names : List String} (h : DerivesParams names toks)
    (hscanned : ∀ t ∈ toks, Scanned t) (p : Position) (rest : List Char) (hrest : Breaks rest) :
    ∃ toks, DerivesParams names toks ∧
      Scans p (commaSeparated (names.map String.toList)) toks rest := by
  rcases h with ⟨rfl, rfl⟩ | h
  · exact ⟨[], Or.inl ⟨rfl, rfl⟩, Scans.nil⟩
  · obtain ⟨toks, htoks, hscan⟩ := h.rewords hscanned p rest hrest
    exact ⟨toks, Or.inr htoks, hscan⟩

theorem print?_letVar (x : String) (h : e.print? = some text) : (Stmt.letVar x e).print? =
    some ("let".toList ++ [' '] ++ (x.toList ++ (" = ".toList ++ text)) ++ [';']) := by
  have hprint : (Stmt.letVar x e).print? =
      some ("let".toList ++ [' '] ++ x.toList ++ " = ".toList ++ text ++ [';']) := by
    rw [Stmt.print?, h]
    rfl
  rw [hprint]
  simp only [List.append_assoc]

theorem print?_define (f : String) (names : List String) (h : e.print? = some text) :
    (Stmt.define f names e).print? = some ("define".toList ++ [' '] ++ (f.toList ++
      (('(' :: commaSeparated (names.map String.toList) ++ [')']) ++ (" = ".toList ++ text)))
      ++ [';']) := by
  have hprint : (Stmt.define f names e).print? = some ("define".toList ++ [' '] ++ f.toList ++
      '(' :: commaSeparated (names.map String.toList) ++ ([')'] ++ " = ".toList) ++ text
      ++ [';']) := by
    rw [Stmt.print?, h]
    rfl
  rw [hprint]
  simp only [List.append_assoc, List.cons_append]

/-- **The statement of a text** has a text whose tokens derive the collapsed statement; all but the
semicolon at its end. -/
theorem DerivesStmt.rewords {s : Stmt} (h : DerivesStmt s toks) (hscanned : ∀ t ∈ toks, Scanned t) :
    ∃ text, s.print? = some (text ++ [';']) ∧ ∀ p rest, Breaks rest →
      ∃ toks, DerivesStmt s.collapse toks ∧ Scans p text toks rest := by
  cases h with
  | @importVar w x hw hx =>
    have hname := (hscanned x (by simp)).isName hx
    refine ⟨"import".toList ++ [' '] ++ x.text.toList, rfl, fun p rest hrest => ?_⟩
    exact ⟨_, .importVar (w := ⟨.ident, "import", p⟩) (x := ⟨.ident, x.text, _⟩) ⟨rfl, rfl⟩ rfl,
      (scans_word _ (by decide)).append (hname.scans hrest)⟩
  | @exportVar w x hw hx =>
    have hname := (hscanned x (by simp)).isName hx
    refine ⟨"export".toList ++ [' '] ++ x.text.toList, rfl, fun p rest hrest => ?_⟩
    exact ⟨_, .exportVar (w := ⟨.ident, "export", p⟩) (x := ⟨.ident, x.text, _⟩) ⟨rfl, rfl⟩ rfl,
      (scans_word _ (by decide)).append (hname.scans hrest)⟩
  | @letVar w x q e us hw hx hq he =>
    have hname := (hscanned x (by simp)).isName hx
    obtain ⟨text, hworded⟩ : ∃ text, Worded e text := he.rewords fun u hu => hscanned u (by simp [hu])
    refine ⟨_, print?_letVar x.text hworded.prints, fun p rest hrest => ?_⟩
    obtain ⟨q, hq, hequals⟩ := scans_equals
      ((p.advance ("let".toList ++ [' '])).advance x.text.toList) (text ++ rest)
    obtain ⟨toks, htoks, hscan⟩ := hworded.whole
      (((p.advance ("let".toList ++ [' '])).advance x.text.toList).advance " = ".toList) rest hrest
    exact ⟨_, .letVar (w := ⟨.ident, "let", p⟩) (x := ⟨.ident, x.text, _⟩) ⟨rfl, rfl⟩ rfl hq htoks,
      (scans_word _ (by decide)).append
        ((hname.scans (breaks_cons (by decide) (by decide))).append (hequals.append hscan))⟩
  | @define w f o c q names body ps us hw hf ho hps hc hq hbody =>
    have hname := (hscanned f (by simp)).isName hf
    have hparams := hps.rewords fun u hu => hscanned u (by simp [hu])
    obtain ⟨text, hworded⟩ : ∃ text, Worded body text :=
      hbody.rewords fun u hu => hscanned u (by simp [hu])
    refine ⟨_, print?_define f.text names hworded.prints, fun p rest hrest => ?_⟩
    -- the places of what stands behind the word, the name and the parameters
    generalize hp₁ : p.advance ("define".toList ++ [' ']) = p₁
    generalize hp₂ : p₁.advance f.text.toList = p₂
    generalize hp₃ : p₂.advance ('(' :: commaSeparated (names.map String.toList) ++ [')']) = p₃
    obtain ⟨o, ps, c, hps, ho, hc, hparens⟩ := scans_parens hparams p₂ (" = ".toList ++ text ++ rest)
    obtain ⟨q, hq, hequals⟩ := scans_equals p₃ (text ++ rest)
    obtain ⟨toks, htoks, hscan⟩ := hworded.whole (p₃.advance " = ".toList) rest hrest
    have hdefine := DerivesStmt.define (w := ⟨.ident, "define", p⟩) (f := ⟨.ident, f.text, p₁⟩) ⟨rfl, rfl⟩
      rfl ho hps hc hq htoks
    refine ⟨_, hdefine, ?_⟩
    subst hp₁ hp₂ hp₃
    have hall := (scans_word (p := p) "define" (by decide)).append
        ((hname.scans (breaks_mark (by decide))).append (hparens.append (hequals.append hscan)))
    simpa only [List.append_assoc, List.cons_append, List.nil_append] using hall

theorem DerivesStmt.scans_print {s : Stmt} (h : DerivesStmt s toks) (hscanned : ∀ t ∈ toks, Scanned t) :
    ∃ text, s.print? = some text ∧ ∀ p rest,
      ∃ toks c, DerivesStmt s.collapse toks ∧ c.kind = .semi ∧ Scans p text (toks ++ [c]) rest := by
  obtain ⟨text, htext, hscans⟩ := h.rewords hscanned
  refine ⟨_, htext, fun p rest => ?_⟩
  obtain ⟨us, hus, hscan⟩ := hscans p ([';'] ++ rest) (breaks_mark (by decide))
  exact ⟨us, _, hus, rfl, hscan.append (scans_mark (by decide) rfl)⟩

theorem mapM_print?_cons {s : Stmt} {prog : Program} (h : s.print? = some text)
    (hprog : prog.mapM Stmt.print? = some texts) :
    (s :: prog).mapM Stmt.print? = some (text :: texts) := by
  rw [List.mapM_cons, h, hprog]
  rfl

/-- The only statement of a program, which the printer ends with a semicolon all the same. -/
theorem DerivesStmt.rewords_single {s : Stmt} (h : DerivesStmt s toks)
    (hscanned : ∀ t ∈ toks, Scanned t) :
    ∃ texts, [s].mapM Stmt.print? = some texts ∧ ∀ p, ∃ toks,
      DerivesStmts [s.collapse] toks ∧ Scans p (['\n'].intercalate texts) toks [] := by
  obtain ⟨text, htext, hscans⟩ := h.scans_print hscanned
  refine ⟨[text], mapM_print?_cons htext rfl, fun p => ?_⟩
  obtain ⟨us, c, hus, hc, hscan⟩ := hscans p []
  refine ⟨_, .more hus hc .empty, ?_⟩
  simpa using hscan

/-- **The program of a text** has a text whose tokens derive the collapsed program. -/
theorem DerivesStmts.rewords {prog : Program} (h : DerivesStmts prog toks)
    (hscanned : ∀ t ∈ toks, Scanned t) :
    ∃ texts, prog.mapM Stmt.print? = some texts ∧ ∀ p, ∃ toks,
      DerivesStmts (prog.map Stmt.collapse) toks ∧ Scans p (['\n'].intercalate texts) toks [] := by
  induction h with
  | empty => exact ⟨[], rfl, fun p => ⟨[], .empty, Scans.nil⟩⟩
  | last hs => exact hs.rewords_single hscanned
  | @more s prog c toks rest hs _ _ ih =>
    cases prog with
    | nil => exact hs.rewords_single fun u hu => hscanned u (by simp [hu])
    | cons s' prog =>
      obtain ⟨text, htext, hstmt⟩ := hs.scans_print fun u hu => hscanned u (by simp [hu])
      obtain ⟨texts, htexts, hothers⟩ := ih fun u hu => hscanned u (by simp [hu])
      refine ⟨text :: texts, mapM_print?_cons htext htexts, fun p => ?_⟩
      obtain ⟨us, c, hus, hc, hscan⟩ := hstmt p (['\n'] ++ ['\n'].intercalate texts ++ [])
      obtain ⟨more, hmore, hscan'⟩ := hothers ((p.advance text).advance ['\n'])
      have hbreak : Scans (p.advance text) ['\n'] [] (['\n'].intercalate texts ++ []) :=
        scans_space (by decide)
      refine ⟨_, .more hus hc hmore, ?_⟩
      have hall := hscan.append (hbreak.append hscan')
      -- there is a statement behind this one, so that its text is followed by a line feed
      obtain ⟨text', texts', rfl⟩ : ∃ text' texts', texts = text' :: texts' := by
        rw [List.mapM_cons] at htexts
        obtain ⟨text', -, hrest⟩ := Option.bind_eq_some_iff.mp htexts
        obtain ⟨texts', -, heq⟩ := Option.bind_eq_some_iff.mp hrest
        exact ⟨text', texts', (Option.some.inj heq).symm⟩
      simpa [List.intercalate_cons_cons] using hall

theorem parse_toText_collapse {text : String} {p : Program} (h : parse text = .ok p) :
    ∃ printed, Program.toText? p = some printed ∧ parse printed = .ok (p.map Stmt.collapse) := by
  obtain ⟨toks, htext, hread⟩ := parse_eq_ok.mp h
  obtain ⟨body, stop, rfl, hstop, hbody⟩ := genuine_of_tokenize htext
  have hderives := derives_of_statements hbody hstop hread
  obtain ⟨texts, htexts, hrewords⟩ := hderives.rewords hbody
  obtain ⟨us, hus, hscan⟩ := hrewords .start
  obtain ⟨q, htokens⟩ := hscan.tokenize
  refine ⟨_, by rw [Program.toText?, htexts]; rfl, ?_⟩
  exact parse_eq_ok.mpr ⟨_, htokens, program_of_derives htokens ⟨us, _, rfl, rfl, hus⟩⟩

/-! ## What is not read back -/

/-- **An expression is part of another one**, or is that one. -/
inductive Expr.Within (part : Expr) : Expr → Prop
  | self : Within part part
  | operand {op : PrefixOp} {e : Expr} (h : Within part e) : Within part (.unary op e)
  | left {l r : Expr} {op : InfixOp} (h : Within part l) : Within part (.binary l op r)
  | right {l r : Expr} {op : InfixOp} (h : Within part r) : Within part (.binary l op r)
  | argument {f : String} {args : List Expr} {a : Expr} (mem : a ∈ args) (h : Within part a) :
      Within part (.call f args)
  | reduced {op : InfixOp} {args : List Expr} {a : Expr} (mem : a ∈ args) (h : Within part a) :
      Within part (.fold op args)
  | item {items : List Expr} {a : Expr} (mem : a ∈ items) (h : Within part a) :
      Within part (.array items)

/-- An expression in which a minus sign is applied to a literal that is not negative. -/
def Expr.Negates (e : Expr) : Prop := ∃ n : Number, 0 ≤ n.raw ∧ Within (.unary .neg (.literal n)) e

/-- A statement in whose expression a minus sign is applied to a literal that is not negative. -/
def Stmt.Negates : Stmt → Prop
  | .define _ _ body => body.Negates
  | .letVar _ e => e.Negates
  | _ => False

/-- The expressions that an expression is made of. -/
def Expr.children : Expr → List Expr
  | .unary _ e => [e]
  | .binary l _ r => [l, r]
  | .call _ args | .fold _ args | .array args => args
  | .literal _ | .ident _ | .stray _ => []

theorem within_iff {part : Expr} : part.Within e ↔ e = part ∨ ∃ c ∈ e.children, part.Within c := by
  constructor
  · intro h
    cases h with
    | self => exact Or.inl rfl
    | operand h => exact Or.inr ⟨_, List.mem_singleton_self _, h⟩
    | left h => exact Or.inr ⟨_, List.mem_cons_self, h⟩
    | right h => exact Or.inr ⟨_, List.mem_cons_of_mem _ (List.mem_singleton_self _), h⟩
    | argument hmem h | reduced hmem h | item hmem h => exact Or.inr ⟨_, hmem, h⟩
  · rintro (rfl | ⟨c, hmem, h⟩)
    · exact .self
    · cases e with
      | literal | ident | stray => cases hmem
      | unary => exact .operand (List.mem_singleton.mp hmem ▸ h)
      | binary =>
        rcases List.mem_cons.mp hmem with rfl | hmem
        · exact .left h
        · exact .right (List.mem_singleton.mp hmem ▸ h)
      | call => exact .argument hmem h
      | fold => exact .reduced hmem h
      | array => exact .item hmem h

/-- A minus sign is applied to such a literal at the top of the expression, or further inside. -/
theorem negates_iff :
    e.Negates ↔ (∃ n : Number, e = .unary .neg (.literal n) ∧ 0 ≤ n.raw) ∨ ∃ c ∈ e.children, c.Negates := by
  constructor
  · rintro ⟨n, hn, h⟩
    rcases within_iff.mp h with htop | ⟨c, hmem, h⟩
    · exact Or.inl ⟨n, htop, hn⟩
    · exact Or.inr ⟨c, hmem, n, hn, h⟩
  · rintro (⟨n, htop, hn⟩ | ⟨c, hmem, n, hn, h⟩)
    · exact ⟨n, hn, within_iff.mpr (Or.inl htop)⟩
    · exact ⟨n, hn, within_iff.mpr (Or.inr ⟨c, hmem, h⟩)⟩

mutual

/-- Collapsing leaves an expression alone exactly if there is nothing to collapse. -/
theorem collapse_eq_self_iff : ∀ e : Expr, e.collapse = e ↔ ¬ e.Negates
  | .literal n | .ident x | .stray node => by
    rw [negates_iff]
    simp [Expr.collapse, Expr.children]
  | .unary op e => by
    by_cases hsigns : Signs op e
    · obtain ⟨rfl, n, rfl, hn⟩ := hsigns
      have hnegates : (Expr.unary .neg (.literal n)).Negates := ⟨n, hn, .self⟩
      simp [collapse_signed hn, hnegates]
    · -- nothing to collapse at the top, so all depends on the operand
      have hinner : (Expr.unary op e).Negates ↔ e.Negates := by
        rw [negates_iff]
        constructor
        · rintro (⟨n, heq, hn⟩ | ⟨c, hmem, hc⟩)
          · cases heq
            exact absurd ⟨rfl, n, rfl, hn⟩ hsigns
          · exact List.mem_singleton.mp hmem ▸ hc
        · exact fun h => Or.inr ⟨e, List.mem_singleton_self e, h⟩
      rw [collapse_unary hsigns, hinner, ← collapse_eq_self_iff e]
      simp
  | .binary l op r => by
    have hl := collapse_eq_self_iff l
    have hr := collapse_eq_self_iff r
    rw [negates_iff]
    simp [Expr.collapse, Expr.children, hl, hr]
  | .call f args => by
    have hargs := collapseAll_eq_self_iff args
    rw [negates_iff]
    simpa [Expr.collapse, Expr.children] using hargs
  | .fold op args => by
    have hargs := collapseAll_eq_self_iff args
    rw [negates_iff]
    simpa [Expr.collapse, Expr.children] using hargs
  | .array items => by
    have hitems := collapseAll_eq_self_iff items
    rw [negates_iff]
    simpa [Expr.collapse, Expr.children] using hitems

theorem collapseAll_eq_self_iff : ∀ es : List Expr, collapseAll es = es ↔ ∀ e ∈ es, ¬ e.Negates
  | [] => by simp [collapseAll]
  | e :: es => by
    rw [collapseAll, List.cons.injEq, collapse_eq_self_iff e, collapseAll_eq_self_iff es,
      List.forall_mem_cons]

end

theorem stmt_collapse_eq_self_iff (s : Stmt) : s.collapse = s ↔ ¬ s.Negates := by
  cases s with
  | define f params body =>
    rw [Stmt.collapse, Stmt.define.injEq, Stmt.Negates, ← collapse_eq_self_iff]
    simp
  | letVar x e =>
    rw [Stmt.collapse, Stmt.letVar.injEq, Stmt.Negates, ← collapse_eq_self_iff]
    simp
  | importVar | exportVar | stray => exact ⟨fun _ => id, fun _ => rfl⟩

/-- **A program that was read can be printed and read again.**  What comes back has its minus signs
taken into the literals they stand before, and is the program itself if and only if it applies no minus
sign to a literal that is not negative. -/
theorem parse_toText {text : String} {p : Program} (h : parse text = .ok p) :
    ∃ printed, Program.toText? p = some printed ∧
      parse printed = .ok (p.map Stmt.collapse) ∧ (parse printed = .ok p ↔ ¬ ∃ s ∈ p, s.Negates) := by
  obtain ⟨printed, hprinted, hread⟩ := parse_toText_collapse h
  refine ⟨printed, hprinted, hread, ?_⟩
  have hself : p.map Stmt.collapse = p ↔ ∀ s ∈ p, s.collapse = s := by
    have hmap := List.map_inj_left (l := p) (f := Stmt.collapse) (g := id)
    rwa [List.map_id] at hmap
  rw [hread, Except.ok.injEq, hself]
  simp only [stmt_collapse_eq_self_iff, not_exists, not_and]

/-- A program that applies minus signs to literals, once directly and once twice over. -/
def negated : Program :=
  [.letVar "x" (.binary (.unary .neg (.literal .one)) .pow (.unary .neg (.unary .neg (.literal .zero))))]

theorem parse_toText_negated :
    parse "let x = -(1) ^ - -(0)" = .ok negated ∧
      ∃ printed, Program.toText? negated = some printed ∧
        parse printed = .ok [.letVar "x"
          (.binary (.literal Number.one.neg) .pow (.unary .neg (.literal Number.zero.neg)))] ∧
        ¬ parse printed = .ok negated := by
  have hread : parse "let x = -(1) ^ - -(0)" = .ok negated := eq_ok_of_toOption (by decide +kernel)
  obtain ⟨printed, hprinted, hcollapse, hself⟩ := parse_toText hread
  refine ⟨hread, printed, hprinted, hcollapse, fun hsame => ?_⟩
  exact hself.mp hsame ⟨_, List.mem_cons_self, .one, by decide, .left .self⟩

end Straightline.Source
