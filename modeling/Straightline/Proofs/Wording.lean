import Mathlib.Data.List.Forall2
import Straightline.Grammar.Expression
import Straightline.Proofs.Scanning
import Straightline.Target.Layout

/-!
# The tokens of printed text

`Written e toks` says that `toks` is a row of tokens which spells `e` the way it is printed, with
parentheses where the printer sets them; blanks and places are forgotten.  The text of an expression is
scanned as such a row, whatever stands behind it that breaks a name or numeral off (`worded_print`).
Printing succeeds on every legible expression: one with no stray node and with variables that can be
told from operators.
-/

namespace Straightline

open Lexer Grammar

/-- **A name that can stand for a variable**: it is scanned as a name and spells no operator. -/
structure IsVariable (x : String) : Prop where
  isName : IsName x
  unary : PrefixOp.ofToken? x = none
  binary : InfixOp.ofToken? x = none

instance (x : String) : Decidable (IsVariable x) :=
  decidable_of_iff (IsName x ∧ PrefixOp.ofToken? x = none ∧ InfixOp.ofToken? x = none)
    ⟨fun ⟨h₁, h₂, h₃⟩ => ⟨h₁, h₂, h₃⟩, fun h => ⟨h.isName, h.unary, h.binary⟩⟩

namespace Target

open Printer

/-- **An expression that can be put into text.** -/
def Expr.Legible : Expr → Prop
  | .literal _ => True
  | .ident x => IsVariable x
  | .unary _ e => e.Legible
  | .binary l _ r => l.Legible ∧ r.Legible
  | .stray _ => False

/-- **A statement that can be put into text.** -/
def Stmt.Legible : Stmt → Prop
  | .assign x e => IsVariable x ∧ e.Legible
  | .stray _ => False

instance decidableLegible : (e : Expr) → Decidable e.Legible
  | .literal _ => isTrue trivial
  | .ident x => inferInstanceAs (Decidable (IsVariable x))
  | .unary _ e => decidableLegible e
  | .binary l _ r =>
    have := decidableLegible l
    have := decidableLegible r
    inferInstanceAs (Decidable (l.Legible ∧ r.Legible))
  | .stray _ => isFalse id

instance (s : Stmt) : Decidable s.Legible :=
  match s with
  | .assign x e => inferInstanceAs (Decidable (IsVariable x ∧ e.Legible))
  | .stray _ => isFalse id

/-- How tightly the outermost operator binds; a negative literal counts as a negation. -/
def Expr.strength : Expr → Nat
  | .ident _ => atomStrength
  | .literal n => if n.raw < 0 then PrefixOp.neg.strength else atomStrength
  | .unary op _ => op.strength
  | .binary _ op _ => op.strength
  | .stray _ => 0

/-- The tokens of an operand: those of the expression itself, in parentheses or not. -/
def Operand (wrapped : Bool) (P : List Token → Prop) (toks : List Token) : Prop :=
  if wrapped then
    ∃ o inner c, toks = o :: (inner ++ [c]) ∧ o.kind = .lparen ∧ c.kind = .rparen ∧ P inner
  else P toks

/-- The token of the magnitude of a number. -/
def IsNumeral (n : Number) (t : Token) : Prop :=
  t.kind = .number ∧ t.text = String.ofList (Number.magnitudeText n.raw.natAbs)

/-- **The rows of tokens that spell an expression** as it is printed. -/
def Written : Expr → List Token → Prop
  | .ident x, toks =>
    ∃ t, toks = [t] ∧ t.kind = .ident ∧ t.text = x ∧ prefixOp? t = none ∧ infixOp? t = none
  | .literal n, toks =>
    if n.raw < 0 then ∃ m t, toks = [m, t] ∧ prefixOp? m = some .neg ∧ IsNumeral n t
    else ∃ t, toks = [t] ∧ IsNumeral n t
  | .unary op e, toks =>
    ∃ t ts, toks = t :: ts ∧ prefixOp? t = some op ∧
      Operand (decide (e.strength < op.strength)) (Written e) ts
  | .binary l op r, toks =>
    ∃ ls t rs, toks = ls ++ t :: rs ∧ infixOp? t = some op ∧
      Operand (wrapsLeft op l.strength) (Written l) ls ∧
      Operand (wrapsRight op r.strength (r.isBinary op)) (Written r) rs
  | .stray _, _ => False

/-! ## Expressions -/

variable {p : Position} {cs rest : List Char}

/-- **What the text of an expression is like**: the strength that goes with it, how it begins, and the
tokens it is scanned as. -/
structure Worded (e : Expr) (text : List Char × Nat) : Prop where
  strength : text.2 = e.strength
  leads : Leads text.1
  scans : ∀ p rest, Breaks rest → ∃ toks, Written e toks ∧ Scans p text.1 toks rest

variable {e l r : Expr} {text lhs rhs : List Char × Nat}

theorem leads_parenthesized (cs : List Char) : Leads (parenthesized cs) :=
  ⟨'(', cs ++ [')'], rfl, by decide, by decide⟩

theorem Worded.scans_parenthesized (h : Worded e text) (p : Position) (rest : List Char) :
    ∃ toks, Operand true (Written e) toks ∧ Scans p (parenthesized text.1) toks rest := by
  obtain ⟨o, inner, c, hinner, ho, hc, hscan⟩ := scans_parens h.scans p rest
  exact ⟨_, ⟨o, inner, c, rfl, ho, hc, hinner⟩, hscan⟩

/-- An operand, in parentheses or not. -/
theorem Worded.operand (h : Worded e text) (wrapped : Bool) :
    Leads (if wrapped then parenthesized text.1 else text.1) ∧
      ∀ p rest, Breaks rest → ∃ toks, Operand wrapped (Written e) toks ∧
        Scans p (if wrapped then parenthesized text.1 else text.1) toks rest := by
  cases wrapped with
  | true => exact ⟨leads_parenthesized _, fun p rest _ => h.scans_parenthesized p rest⟩
  | false => exact ⟨h.leads, h.scans⟩

theorem worded_ident {x : String} (h : IsVariable x) : Worded (.ident x) (x.toList, atomStrength) := by
  refine ⟨rfl, h.isName.leads, fun p rest hrest => ?_⟩
  refine ⟨[⟨.ident, x, p⟩], ⟨_, rfl, rfl, rfl, ?_, ?_⟩, h.isName.scans hrest⟩
  · exact h.unary
  · unfold infixOp?
    split
    · exact h.binary
    · rfl

theorem startsWithMinus_toChars (n : Number) : startsWithMinus n.toChars = decide (n.raw < 0) := by
  obtain ⟨c, cs, hcs, hc⟩ := Number.magnitudeText_eq_cons n.raw.natAbs
  have hne : c ≠ '-' := Text.ne_of_class hc (by decide)
  unfold Number.toChars startsWithMinus
  by_cases h : n.raw < 0
  · simp [h]
  · simp [h, hcs, hne]

theorem worded_literal (n : Number) : Worded (.literal n) (n.toChars,
    if startsWithMinus n.toChars then PrefixOp.neg.strength else atomStrength) := by
  have hleads := leads_magnitudeText n.raw.natAbs
  rw [startsWithMinus_toChars]
  have hstrength : (if decide (n.raw < 0) = true then PrefixOp.neg.strength else atomStrength)
      = (Expr.literal n).strength := by
    simp only [Expr.strength, decide_eq_true_eq]
  by_cases h : n.raw < 0
  · have htext : n.toChars = ['-'] ++ Number.magnitudeText n.raw.natAbs := by
      rw [Number.toChars, if_pos h]
    rw [htext]
    refine ⟨hstrength, ⟨'-', _, rfl, by decide, by decide⟩, fun p rest hrest => ?_⟩
    have hparts : Parts (Number.magnitudeText n.raw.natAbs ++ rest) := hleads.parts
    obtain ⟨m, hm, hminus⟩ := scans_prefixOp (p := p) .neg hparts
    refine ⟨[m] ++ [_], ?_, hminus.append (scans_numeral _ hrest)⟩
    rw [Written, if_pos h]
    exact ⟨m, _, rfl, hm, rfl, rfl⟩
  · have htext : n.toChars = Number.magnitudeText n.raw.natAbs := by
      rw [Number.toChars, if_neg h, List.nil_append]
    rw [htext]
    refine ⟨hstrength, hleads, fun p rest hrest => ⟨[_], ?_, scans_numeral _ hrest⟩⟩
    rw [Written, if_neg h]
    exact ⟨_, rfl, rfl, rfl⟩

theorem Worded.unary (h : Worded e text) (op : PrefixOp) :
    Worded (.unary op e) (unaryText op text, op.strength) := by
  have hspace : ∀ {p rest}, Scans p [' '] [] rest := scans_space (by decide)
  unfold unaryText
  rw [h.strength]
  by_cases hwrapped : e.strength < op.strength
  · -- the parenthesis keeps even a word apart from its operand
    rw [if_pos hwrapped]
    refine ⟨rfl, (leads_token op).append _, fun p rest hrest => ?_⟩
    obtain ⟨t, ht, hop⟩ := scans_prefixOp (p := p) op (follows_of_eq (Or.inr rfl) op.isWord)
    obtain ⟨toks, htoks, hscan⟩ := h.scans_parenthesized (p.advance op.token.toList) rest
    refine ⟨t :: toks, ⟨t, toks, rfl, ht, ?_⟩, hop.append hscan⟩
    rw [decide_eq_true hwrapped]
    exact htoks
  · have hbare : ∀ {toks}, Written e toks →
        Operand (decide (e.strength < op.strength)) (Written e) toks := by
      intro toks htoks
      rw [decide_eq_false hwrapped]
      exact htoks
    rw [if_neg hwrapped]
    by_cases hblank : (op.isWord || startsWithMinus text.1) = true
    · -- a blank stands behind a word, and between two minus signs
      rw [if_pos hblank]
      refine ⟨rfl, (leads_token op).append _, fun p rest hrest => ?_⟩
      have hfollows : if op.isWord then Breaks ([' '] ++ text.1 ++ rest)
          else Parts ([' '] ++ text.1 ++ rest) := follows_of_eq (Or.inl rfl) op.isWord
      obtain ⟨t, ht, hop⟩ := scans_prefixOp (p := p) op hfollows
      obtain ⟨toks, htoks, hscan⟩ := h.scans ((p.advance op.token.toList).advance [' ']) rest hrest
      exact ⟨t :: toks, ⟨t, toks, rfl, ht, hbare htoks⟩, hop.append (hspace.append hscan)⟩
    · -- what is left is a minus sign directly before its operand
      rw [if_neg hblank]
      refine ⟨rfl, (leads_token op).append _, fun p rest hrest => ?_⟩
      have hword : op.isWord = false := (Bool.or_eq_false_iff.mp (eq_false_of_ne_true hblank)).1
      have hfollows : if op.isWord then Breaks (text.1 ++ rest) else Parts (text.1 ++ rest) := by
        rw [hword]
        exact h.leads.parts
      obtain ⟨t, ht, hop⟩ := scans_prefixOp (p := p) op hfollows
      obtain ⟨toks, htoks, hscan⟩ := h.scans (p.advance op.token.toList) rest hrest
      exact ⟨t :: toks, ⟨t, toks, rfl, ht, hbare htoks⟩, hop.append hscan⟩

/-- What stands between two operands: the operator, with blanks where they are called for. -/
theorem binaryText_eq (left : List Char) (op : InfixOp) {right : List Char} (hright : Leads right) :
    ∃ joint, binaryText left op right = left ++ (joint ++ right) ∧ (∀ rest, Breaks (joint ++ right ++ rest)) ∧
      ∀ p rest, ∃ t, infixOp? t = some op ∧ Scans p joint [t] (right ++ rest) := by
  have hspace : ∀ {p rest}, Scans p [' '] [] rest := scans_space (by decide)
  unfold binaryText
  by_cases hword : op.isWord = true
  · rw [if_pos hword]
    refine ⟨[' '] ++ (op.token.toList ++ [' ']), by simp, ?_, fun p rest => ?_⟩
    · exact fun rest => breaks_cons (by decide) (by decide)
    · obtain ⟨t, ht, hop⟩ :=
        scans_infixOp (p := p.advance [' ']) op (follows_of_eq (Or.inl rfl) op.isWord)
      exact ⟨t, ht, hspace.append (hop.append hspace)⟩
  · rw [if_neg hword]
    have hbreaks : ∀ rest, Breaks (op.token.toList ++ rest) := by
      intro rest
      cases op with
      | and | or => exact absurd rfl hword
      | _ => exact breaks_cons (by decide) (by decide)
    by_cases hminus : (decide (op = .sub) && startsWithMinus right) = true
    · rw [if_pos hminus]
      obtain rfl : op = .sub := of_decide_eq_true (Bool.and_eq_true_iff.mp hminus).1
      refine ⟨['-'] ++ [' '], by simp, fun rest => breaks_cons (by decide) (by decide), fun p rest => ?_⟩
      obtain ⟨t, ht, hop⟩ := scans_infixOp (p := p) .sub (follows_of_eq (Or.inl rfl) false)
      exact ⟨t, ht, hop.append hspace⟩
    · rw [if_neg hminus]
      refine ⟨op.token.toList, by simp, fun rest => ?_, fun p rest => scans_infixOp op ?_⟩
      · rw [List.append_assoc]
        exact hbreaks _
      rw [eq_false_of_ne_true hword]
      exact hright.parts

theorem Worded.binary (hl : Worded l lhs) (op : InfixOp) (hr : Worded r rhs) :
    Worded (.binary l op r)
      (binaryText (if wrapsLeft op lhs.2 then parenthesized lhs.1 else lhs.1) op
        (if wrapsRight op rhs.2 (r.isBinary op) then parenthesized rhs.1 else rhs.1), op.strength) := by
  obtain ⟨hleads, hleft⟩ := hl.operand (wrapsLeft op lhs.2)
  obtain ⟨hleads', hright⟩ := hr.operand (wrapsRight op rhs.2 (r.isBinary op))
  generalize (if wrapsLeft op lhs.2 then parenthesized lhs.1 else lhs.1) = left at *
  generalize (if wrapsRight op rhs.2 (r.isBinary op) then parenthesized rhs.1 else rhs.1) = right at *
  obtain ⟨joint, htext, hbreaks, hjoint⟩ := binaryText_eq left op hleads'
  rw [htext]
  refine ⟨rfl, hleads.append _, fun p rest hrest => ?_⟩
  obtain ⟨ls, hls, hscan⟩ := hleft p (joint ++ right ++ rest) (hbreaks rest)
  obtain ⟨t, ht, hop⟩ := hjoint (p.advance left) rest
  obtain ⟨rs, hrs, hscan'⟩ := hright ((p.advance left).advance joint) rest hrest
  rw [hl.strength] at hls
  rw [hr.strength] at hrs
  exact ⟨ls ++ ([t] ++ rs), ⟨ls, t, rs, rfl, ht, hls, hrs⟩, hscan.append (hop.append hscan')⟩

/-- **The text of a legible expression** is scanned as tokens that spell it. -/
theorem worded_print (h : e.Legible) : ∃ text, e.print = .ok text ∧ Worded e text := by
  induction e with
  | literal n => exact ⟨_, rfl, worded_literal n⟩
  | ident x => exact ⟨_, rfl, worded_ident h⟩
  | unary op e ih =>
    obtain ⟨text, htext, hworded⟩ := ih h
    exact ⟨_, by rw [Expr.print, htext]; rfl, hworded.unary op⟩
  | binary l op r ihl ihr =>
    obtain ⟨lhs, hlhs, hl⟩ := ihl h.1
    obtain ⟨rhs, hrhs, hr⟩ := ihr h.2
    exact ⟨_, by rw [Expr.print, hlhs, hrhs]; rfl, hl.binary op hr⟩
  | stray node => exact h.elim

/-! ## Programs -/

/-- The rows of tokens that spell a statement. -/
def WrittenStmt : Stmt → List Token → Prop
  | .assign x e, toks =>
    ∃ t q ts, toks = t :: q :: ts ∧ t.kind = .ident ∧ t.text = x ∧ infixOp? t = none ∧
      q.kind = .assign ∧ Written e ts
  | .stray _, _ => False

/-- **The rows of tokens that spell a program.** -/
def WrittenProgram : List Stmt → List Token → Prop
  | [], toks => toks = []
  | s :: stmts, toks => ∃ ts us, toks = ts ++ us ∧ WrittenStmt s ts ∧ WrittenProgram stmts us

/-- What the text of a statement is like. -/
def WordedStmt (s : Stmt) (text : List Char) : Prop :=
  ∀ p rest, Breaks rest → ∃ toks, WrittenStmt s toks ∧ Scans p text toks rest

theorem worded_stmt {s : Stmt} (h : s.Legible) : ∃ text, s.print = .ok text ∧ WordedStmt s text := by
  cases s with
  | stray node => exact h.elim
  | assign x e =>
    obtain ⟨text, htext, hworded⟩ := worded_print h.2
    refine ⟨_, by rw [Stmt.print, htext]; rfl, fun p rest hrest => ?_⟩
    obtain ⟨xs, hxs, hname⟩ := (worded_ident h.1).scans p ('=' :: text.1 ++ rest)
      (breaks_cons (by decide) (by decide))
    obtain ⟨t, rfl, hkind, ht, _, hinfix⟩ := hxs
    obtain ⟨toks, htoks, hscan⟩ := hworded.scans ((p.advance x.toList).advance ['=']) rest hrest
    have hequals : Scans (p.advance x.toList) ['='] [⟨.assign, "=", p.advance x.toList⟩]
        (text.1 ++ rest) :=
      scans_punctuation (by decide) (by decide) (by decide) fun _ => hworded.leads.parts
    exact ⟨_, ⟨t, _, toks, rfl, hkind, ht, hinfix, rfl, htoks⟩, hname.append (hequals.append hscan)⟩

theorem worded_stmts {stmts : List Stmt} (h : ∀ s ∈ stmts, s.Legible) :
    ∃ texts, stmts.mapM Stmt.print = .ok texts ∧ List.Forall₂ WordedStmt stmts texts := by
  induction stmts with
  | nil => exact ⟨[], rfl, .nil⟩
  | cons s stmts ih =>
    obtain ⟨text, htext, hworded⟩ := worded_stmt (h s List.mem_cons_self)
    obtain ⟨texts, htexts, hall⟩ := ih fun s hs => h s (List.mem_cons_of_mem _ hs)
    exact ⟨text :: texts, by rw [List.mapM_cons, htext, htexts]; rfl, .cons hworded hall⟩

/-- **Texts one behind the other**, with a blank or a line break after each but the last. -/
inductive Joins : List (List Char) → List Char → Prop
  | nil : Joins [] []
  | last (text : List Char) : Joins [text] text
  | cons (text : List Char) {c : Char} (hc : c = ' ' ∨ c = '\n') {next : List Char}
      {texts : List (List Char)} {cs : List Char} (h : Joins (next :: texts) cs) :
      Joins (text :: next :: texts) (text ++ c :: cs)

theorem Joins.append {texts more : List (List Char)} {ds : List Char} {c : Char} (h : Joins texts cs)
    (hne : texts ≠ []) (hc : c = ' ' ∨ c = '\n') (h' : Joins more ds) (hne' : more ≠ []) :
    Joins (texts ++ more) (cs ++ c :: ds) := by
  induction h with
  | nil => exact absurd rfl hne
  | last text =>
    cases more with
    | nil => exact absurd rfl hne'
    | cons next more => exact .cons text hc h'
  | cons text hc' _ ih =>
    rw [List.append_assoc]
    exact .cons text hc' (ih (List.cons_ne_nil _ _))

theorem joins_lineText {texts : List (List Char)} : Joins texts (Layout.lineText texts) := by
  induction texts with
  | nil => exact .nil
  | cons text texts ih =>
    cases texts with
    | nil =>
      rw [Layout.lineText_singleton]
      exact .last text
    | cons next texts =>
      rw [Layout.lineText_cons text (List.cons_ne_nil next texts)]
      exact .cons text (Or.inl rfl) ih

theorem linesText_cons {line : List (List Char)} {lines : List (List (List Char))} (hne : lines ≠ []) :
    Layout.linesText (line :: lines) = Layout.lineText line ++ '\n' :: Layout.linesText lines := by
  cases lines with
  | nil => exact absurd rfl hne
  | cons next lines => simp [Layout.linesText, List.intercalate_cons_cons]

theorem packAfter_ne_nil (limit : Int) (line : List (List Char)) (width : Nat)
    (texts : List (List Char)) : Layout.packAfter limit line width texts ≠ [] := by
  induction texts generalizing line width with
  | nil => exact List.cons_ne_nil _ _
  | cons text texts ih =>
    rw [Layout.packAfter]
    split
    · exact List.cons_ne_nil _ _
    · exact ih _ _

/-- Packing only chooses between blanks and line breaks: `line` is what the current line already
holds. -/
theorem joins_packAfter (limit : Int) {line : List (List Char)} (hne : line ≠ []) (width : Nat)
    (texts : List (List Char)) :
    Joins (line.reverse ++ texts) (Layout.linesText (Layout.packAfter limit line width texts)) := by
  have hline : ∀ {line : List (List Char)}, line ≠ [] → line.reverse ≠ [] :=
    fun h => List.reverse_eq_nil_iff.not.mpr h
  induction texts generalizing line width with
  | nil =>
    rw [Layout.packAfter, List.append_nil]
    have hone : Layout.linesText [line.reverse] = Layout.lineText line.reverse := by
      simp [Layout.linesText]
    rw [hone]
    exact joins_lineText
  | cons text texts ih =>
    rw [Layout.packAfter]
    split
    · rw [linesText_cons (packAfter_ne_nil _ _ _ _)]
      exact joins_lineText.append (hline hne) (Or.inr rfl) (ih (List.cons_ne_nil text []) _)
        (List.cons_ne_nil _ _)
    · have h := ih (List.cons_ne_nil text line) (width + 1 + text.length)
      rw [List.reverse_cons, List.append_assoc, List.singleton_append] at h
      exact h

theorem joins_pack (limit : Int) (texts : List (List Char)) :
    Joins texts (Layout.linesText (Layout.pack limit texts)) := by
  cases texts with
  | nil => exact .nil
  | cons text texts => exact joins_packAfter limit (List.cons_ne_nil text []) text.length texts

/-- Statements one behind the other are scanned one behind the other. -/
theorem Joins.scans {stmts : List Stmt} {texts : List (List Char)} (h : Joins texts cs)
    (hworded : List.Forall₂ WordedStmt stmts texts) (p : Position) :
    ∃ toks, WrittenProgram stmts toks ∧ Scans p cs toks [] := by
  induction h generalizing stmts p with
  | nil =>
    cases hworded
    exact ⟨[], rfl, Scans.nil⟩
  | last text =>
    cases hworded with
    | cons hs hnil =>
      cases hnil
      obtain ⟨toks, htoks, hscan⟩ := hs p [] breaks_nil
      exact ⟨toks, ⟨toks, [], (List.append_nil _).symm, htoks, rfl⟩, hscan⟩
  | @cons text c hc next texts cs _ ih =>
    cases hworded with
    | cons hs hmore =>
      have hbreaks : Breaks ([c] ++ cs ++ []) := by
        rcases hc with rfl | rfl
        · exact breaks_cons (by decide) (by decide)
        · exact breaks_cons (by decide) (by decide)
      have hspace : Scans (p.advance text) [c] [] (cs ++ []) := by
        refine scans_space ?_
        rcases hc with rfl | rfl
        · decide
        · decide
      obtain ⟨toks, htoks, hscan⟩ := hs p _ hbreaks
      obtain ⟨more, hmore, hscan'⟩ := ih hmore ((p.advance text).advance [c])
      exact ⟨toks ++ ([] ++ more), ⟨toks, more, rfl, htoks, hmore⟩,
        hscan.append (hspace.append hscan')⟩

/-- **The text of a legible program** is scanned as tokens that spell it, whatever the limit. -/
theorem tokenize_print (limit : Int) {stmts : List Stmt} (h : ∀ s ∈ stmts, s.Legible) :
    ∃ text toks q, print limit stmts = .ok text ∧ WrittenProgram stmts toks ∧
      tokenize text = .ok (toks ++ [⟨.eof, "", q⟩]) := by
  obtain ⟨texts, htexts, hworded⟩ := worded_stmts h
  obtain ⟨toks, htoks, hscan⟩ := (joins_pack limit texts).scans hworded .start
  obtain ⟨q, htokens⟩ := hscan.tokenize
  exact ⟨_, toks, q, by rw [print, htexts]; rfl, htoks, htokens⟩

end Target

end Straightline
