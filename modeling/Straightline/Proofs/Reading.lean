import Straightline.Proofs.Arithmetic
import Straightline.Proofs.Climbing
import Straightline.Proofs.Regrouping
import Straightline.Proofs.Wording
import Straightline.Target.Parser

/-!
# Reading printed text

Printing a legible program and reading the text gives back its normal form, for every limit on the
length of lines (`parse_print`).

The reader climbs: it reads a primary expression and then takes in operators as long as they are strong
enough.  So its state in the midst of a row is the expression read so far, and the statement proved by
induction is about `climb`: at the tokens of an expression, `expression` continues as `climb` does from
its normal form (`Reads`); behind a left operand and an operator, `climb` continues from the graft of the
normal form onto them (`Grafts`).  Both hold whatever follows, as long as it does not begin with an
operator that the last operand would take (`Stops`).

The bound on nested calls is spent at less than three for each token.
-/

namespace Straightline

open Grammar

namespace Target

open Printer

/-! ## Strengths -/

theorem strength_le_pow (op : InfixOp) : op.strength ≤ InfixOp.pow.strength := by
  cases op <;> decide

/-- Operators of one strength group to the same side. -/
theorem isRightAssociative_congr {o op : InfixOp} (h : o.strength = op.strength) :
    o.isRightAssociative = op.isRightAssociative := by
  have hpow : ∀ op : InfixOp,
      op.isRightAssociative = decide (op.strength = InfixOp.pow.strength) := by
    intro op
    cases op <;> decide
  rw [hpow o, hpow op, h]

theorem pow_strength_lt (op : PrefixOp) : InfixOp.pow.strength < op.strength := by
  cases op <;> decide

theorem strength_le_atom (op : PrefixOp) : op.strength ≤ atomStrength := by
  cases op <;> decide

theorem rightStrength_of_not (op : InfixOp) (h : op.isRightAssociative = false) :
    rightStrength dialect op = op.strength + 1 := by
  rw [rightStrength, if_neg (by simp [h])]
  rfl

theorem strength_le_rightStrength (op : InfixOp) : op.strength ≤ rightStrength dialect op := by
  rw [rightStrength]
  split
  · exact Nat.le_refl _
  · exact Nat.le_succ _

/-- From which strength on an operator behind an expression would be taken by its last operand. -/
def Expr.reach : Expr → Nat
  | .binary _ op _ => rightStrength dialect op
  | _ => atomStrength

variable {e l r a : Expr} {op o : InfixOp} {t : Token} {toks ls rs rest : List Token} {n least : Nat}

theorem strength_le_reach (e : Expr) : e.strength ≤ e.reach := by
  cases e with
  | binary l op r => exact strength_le_rightStrength op
  | literal n =>
    rw [Expr.strength]
    split
    · exact strength_le_atom .neg
    · exact Nat.le_refl _
  | unary op e => exact strength_le_atom op
  | ident x => exact Nat.le_refl _
  | stray node => exact Nat.zero_le _

/-- The last operand of a left operand without parentheses does not take the operator behind it. -/
theorem strength_lt_reach (h : wrapsLeft op l.strength = false) : op.strength < l.reach := by
  simp only [wrapsLeft, Bool.or_eq_false_iff, decide_eq_false_iff_not, Nat.not_lt,
    Bool.and_eq_false_iff, beq_eq_false_iff_ne] at h
  obtain ⟨hle, hright⟩ := h
  rcases Nat.lt_or_eq_of_le hle with hlt | heq
  · exact Nat.lt_of_lt_of_le hlt (strength_le_reach l)
  · have hop : op.isRightAssociative = false := hright.resolve_left fun hne => hne heq.symm
    cases l with
    | binary x o y =>
      have ho : o.isRightAssociative = false := (isRightAssociative_congr heq.symm).trans hop
      rw [Expr.reach, rightStrength_of_not o ho, heq]
      exact Nat.lt_succ_self _
    | _ =>
      have hatom : InfixOp.pow.strength < atomStrength := by decide
      exact Nat.lt_of_le_of_lt (strength_le_pow op) hatom

/-- The normal form is a row of the same strength. -/
theorem strength_of_norm_eq {x y : Expr} (h : e.norm = .binary x o y) : o.strength = e.strength := by
  cases e with
  | binary l op r =>
    rw [Expr.norm] at h
    split at h
    · exact Expr.strength_of_graft_eq h
    · cases h
      rfl
  | unary op e =>
    rw [Expr.norm, Expr.signed?.eq_def] at h
    split at h
    · split at h <;> cases h
    · cases h
  | _ => cases h

theorem graft_norm_of_ne (h : e.strength ≠ op.strength) : a.graft op e.norm = .binary a op e.norm := by
  refine Expr.graft_of_forall fun x o y hnorm => ?_
  rw [strength_of_norm_eq hnorm]
  exact h

/-! ## Operands -/

/-- **At the tokens of an expression**, the reader continues as from its normal form. -/
def Reads (e : Expr) : Prop :=
  ∀ toks, Written e toks → ∀ n least rest, least ≤ e.strength → Stops dialect e.reach rest →
    3 * toks.length < n → ∃ m, n ≤ m + 3 * toks.length ∧
      expression dialect n least (toks ++ rest) = climb dialect m least e.norm rest

/-- **Behind a left operand and an operator**, the reader continues as from the graft onto them. -/
def Grafts (e : Expr) : Prop :=
  ∀ toks, Written e toks → ∀ t op, infixOp? t = some op → op.isRightAssociative = false →
    op.strength ≤ e.strength → ∀ n least a rest, least ≤ op.strength →
    Stops dialect (op.strength + 1) rest → 3 * toks.length + 3 < n → ∃ m, n ≤ m + 3 * toks.length + 3 ∧
      climb dialect n least a (t :: (toks ++ rest)) = climb dialect m least (a.graft op e.norm) rest

/-- **The tokens are read as a primary expression** under prefix operators. -/
def ReadsUnary (e : Expr) (toks : List Token) : Prop :=
  ∀ n rest, 3 * toks.length ≤ n → unary dialect n (toks ++ rest) = .ok (e.norm, rest)

theorem Reads.parenthesized (h : Reads e) (htoks : Operand true (Written e) toks) :
    ReadsUnary e toks ∧ 0 < toks.length := by
  obtain ⟨o, inner, c, rfl, ho, hc, hinner⟩ := htoks
  refine ⟨fun n rest hn => ?_, Nat.succ_pos _⟩
  rw [List.length_cons, List.length_append, List.length_singleton] at hn
  have hstops : ∀ b, Stops dialect b (c :: rest) :=
    fun b => stops_of_none (infixOp?_of_kind hc (by decide) (by decide))
  obtain ⟨k, rfl⟩ := Nat.exists_eq_add_of_le' (show 2 ≤ n by omega)
  -- the closing parenthesis is no operator, so the expression inside is read up to it
  obtain ⟨m, hm, hread⟩ := h inner hinner k 0 (c :: rest) (Nat.zero_le _) (hstops _) (by omega)
  obtain ⟨m, rfl⟩ := Nat.exists_eq_add_of_le' (show 1 ≤ m by omega)
  rw [climb_of_stops (hstops 0)] at hread
  rw [List.cons_append, List.append_assoc, List.singleton_append,
    unary_of_primary (prefixOp?_of_kind (by simp [ho]) (by simp [ho]))]
  exact primary_parenthesized ho hc hread

theorem ReadsUnary.expression (h : ReadsUnary e toks) (hpos : 0 < toks.length)
    (hn : 3 * toks.length < n) : ∃ m, n ≤ m + 3 * toks.length ∧
      expression dialect n least (toks ++ rest) = climb dialect m least e.norm rest := by
  obtain ⟨k, rfl⟩ := Nat.exists_eq_add_of_le' (show 1 ≤ n by omega)
  exact ⟨k, by omega, expression_of_unary (h k rest (by omega))⟩

/-- An operator and an operand that is read up to where its strength ends. -/
theorem climb_operand (ht : infixOp? t = some op) (hleast : least ≤ op.strength)
    (hstops : Stops dialect (rightStrength dialect op) rest)
    (h : ∀ k, 3 * toks.length < k → ∃ m, k ≤ m + 3 * toks.length ∧
      expression dialect k (rightStrength dialect op) (toks ++ rest)
        = climb dialect m (rightStrength dialect op) e.norm rest)
    (hn : 3 * toks.length + 3 < n) : ∃ m, n ≤ m + 3 * toks.length + 3 ∧
      climb dialect n least a (t :: (toks ++ rest)) = climb dialect m least (.binary a op e.norm) rest := by
  obtain ⟨k, rfl⟩ := Nat.exists_eq_add_of_le' (show 1 ≤ n by omega)
  obtain ⟨m, hm, hread⟩ := h k (by omega)
  obtain ⟨m, rfl⟩ := Nat.exists_eq_add_of_le' (show 1 ≤ m by omega)
  rw [climb_of_stops hstops] at hread
  exact ⟨k, by omega, climb_of_expression ht hleast hread⟩

/-- The left operand of an operator. -/
theorem Reads.left (h : Reads l) (htoks : Operand (wrapsLeft op l.strength) (Written l) ls)
    (ht : infixOp? t = some op) (hleast : least ≤ op.strength) (rest : List Token)
    (hn : 3 * ls.length < n) : ∃ m, n ≤ m + 3 * ls.length ∧
      expression dialect n least (ls ++ t :: rest) = climb dialect m least l.norm (t :: rest) := by
  cases hwraps : wrapsLeft op l.strength with
  | true =>
    rw [hwraps] at htoks
    obtain ⟨hread, hpos⟩ := h.parenthesized htoks
    exact hread.expression hpos hn
  | false =>
    rw [hwraps] at htoks
    have hle : op.strength ≤ l.strength := by
      simp only [wrapsLeft, Bool.or_eq_false_iff, decide_eq_false_iff_not, Nat.not_lt] at hwraps
      exact hwraps.1
    exact h ls htoks n least (t :: rest) (Nat.le_trans hleast hle)
      (stops_operator ht (strength_lt_reach hwraps)) hn

/-- A right operand that is regrouped stands without parentheses. -/
theorem wrapsRight_of_regroups (h : (op.isAssociative && r.isBinary op) = true) :
    op.isRightAssociative = false ∧ r.strength = op.strength ∧
      wrapsRight op r.strength (r.isBinary op) = false := by
  obtain ⟨hassoc, hbinary⟩ := Bool.and_eq_true_iff.mp h
  have hright : op.isRightAssociative = false := by
    revert hassoc
    cases op <;> decide
  have hstrength : r.strength = op.strength := by
    cases r with
    | binary x o y => exact congrArg InfixOp.strength (of_decide_eq_true hbinary)
    | _ => cases hbinary
  refine ⟨hright, hstrength, ?_⟩
  simp only [wrapsRight, hstrength, Nat.lt_irrefl, decide_false, Bool.false_or, h, Bool.not_true,
    Bool.and_false]

/-- Any other right operand without parentheses is strong enough to be read as a whole. -/
theorem rightStrength_le (h : (op.isAssociative && r.isBinary op) = false)
    (hwraps : wrapsRight op r.strength (r.isBinary op) = false) :
    rightStrength dialect op ≤ r.strength := by
  simp only [wrapsRight, h, Bool.not_false, Bool.and_true, Bool.or_eq_false_iff,
    decide_eq_false_iff_not, Nat.not_lt, Bool.and_eq_false_iff, beq_eq_false_iff_ne,
    Bool.not_eq_false'] at hwraps
  obtain ⟨hle, hright⟩ := hwraps
  cases hop : op.isRightAssociative with
  | true =>
    rw [rightStrength, if_pos hop]
    exact hle
  | false =>
    have hne : r.strength ≠ op.strength := hright.resolve_right (by simp [hop])
    rw [rightStrength_of_not op hop]
    omega

/-- An operator and its right operand. -/
theorem Reads.right (h : Reads r) (hgrafts : Grafts r)
    (htoks : Operand (wrapsRight op r.strength (r.isBinary op)) (Written r) rs)
    (ht : infixOp? t = some op) (hleast : least ≤ op.strength)
    (hstops : Stops dialect (rightStrength dialect op) rest) (hn : 3 * rs.length + 3 < n) :
    ∃ m, n ≤ m + 3 * rs.length + 3 ∧ climb dialect n least a (t :: (rs ++ rest)) =
      climb dialect m least (if op.isAssociative && r.isBinary op then a.graft op r.norm
        else .binary a op r.norm) rest := by
  cases hregroups : op.isAssociative && r.isBinary op with
  | true =>
    -- no parentheses: the operand's own operators continue the row
    obtain ⟨hright, hstrength, hwraps⟩ := wrapsRight_of_regroups hregroups
    rw [hwraps] at htoks
    rw [rightStrength_of_not op hright] at hstops
    exact hgrafts rs htoks t op ht hright (Nat.le_of_eq hstrength.symm) n least a rest hleast hstops hn
  | false =>
    refine climb_operand ht hleast hstops (fun k hk => ?_) hn
    cases hwraps : wrapsRight op r.strength (r.isBinary op) with
    | true =>
      rw [hwraps] at htoks
      obtain ⟨hread, hpos⟩ := h.parenthesized htoks
      exact hread.expression hpos hk
    | false =>
      rw [hwraps] at htoks
      have hle := rightStrength_le hregroups hwraps
      exact h rs htoks k _ rest hle (hstops.mono (Nat.le_trans hle (strength_le_reach r))) hk

/-- The left operand of an operator, behind an operator as strong. -/
theorem Grafts.left {u : Token} (h : Reads l) (hgrafts : Grafts l)
    (htoks : Operand (wrapsLeft o l.strength) (Written l) ls) (ht : infixOp? t = some op)
    (hu : infixOp? u = some o) (hright : op.isRightAssociative = false)
    (ho : o.strength = op.strength) (hleast : least ≤ op.strength) (rest : List Token)
    (hn : 3 * ls.length + 3 < n) : ∃ m, n ≤ m + 3 * ls.length + 3 ∧ climb dialect n least a (t :: (ls ++ u :: rest)) =
      climb dialect m least (a.graft op l.norm) (u :: rest) := by
  have hstops : Stops dialect (op.strength + 1) (u :: rest) :=
    stops_operator hu (show o.strength < op.strength + 1 by omega)
  cases hwraps : wrapsLeft o l.strength with
  | true =>
    rw [hwraps] at htoks
    obtain ⟨hread, hpos⟩ := h.parenthesized htoks
    have hne : l.strength ≠ op.strength := by
      have horight : o.isRightAssociative = false := (isRightAssociative_congr ho).trans hright
      simp only [wrapsLeft, horight, Bool.and_false, Bool.or_false, decide_eq_true_eq] at hwraps
      omega
    rw [graft_norm_of_ne hne]
    refine climb_operand ht hleast ?_ (fun k hk => hread.expression hpos hk) hn
    rw [rightStrength_of_not op hright]
    exact hstops
  | false =>
    rw [hwraps] at htoks
    have hle : op.strength ≤ l.strength := by
      simp only [wrapsLeft, Bool.or_eq_false_iff, decide_eq_false_iff_not, Nat.not_lt] at hwraps
      omega
    exact hgrafts ls htoks t op ht hright hle n least a (u :: rest) hleast hstops hn

/-! ## Primary expressions and prefix operators -/

theorem numeral_of_isNumeral {v : Number} (h : IsNumeral v t) :
    numeral false t = .ok (.ofRaw v.raw.natAbs) := by
  rw [numeral, if_neg (by decide), h.2, Number.ofText_magnitudeText]
  rfl

theorem numeral_minus_of_isNumeral {v : Number} (h : IsNumeral v t) :
    numeral true t = .ok (.ofRaw (-v.raw.natAbs)) := by
  rw [numeral, if_pos rfl, h.2, Number.ofText_minus_magnitudeText]
  rfl

theorem readsUnary_ident {x : String} (h : Written (.ident x) toks) : ReadsUnary (.ident x) toks := by
  obtain ⟨t, rfl, hkind, rfl, hunary, hbinary⟩ := h
  intro n rest hn
  obtain ⟨k, rfl⟩ := Nat.exists_eq_add_of_le' (show 2 ≤ n by simp at hn; omega)
  refine (unary_of_primary hunary).trans (primary_ident rfl hkind fun hreserved => ?_)
  have hword : t.text = "and" ∨ t.text = "or" := by simpa [dialect] using hreserved
  rw [infixOp?, if_pos (Or.inr ⟨hkind, hword⟩)] at hbinary
  rcases hword with hword | hword <;> rw [hword] at hbinary <;> exact absurd hbinary (by decide)

theorem readsUnary_literal {v : Number} (h : Written (.literal v) toks) :
    ReadsUnary (.literal v) toks := by
  intro n rest hn
  rw [Written] at h
  split at h
  · rename_i hneg
    obtain ⟨m, t, rfl, hm, ht⟩ := h
    obtain ⟨k, rfl⟩ := Nat.exists_eq_add_of_le' (show 1 ≤ n by simp at hn; omega)
    have hv : Number.ofRaw (-(v.raw.natAbs : Int)) = v := by
      rw [show (-(v.raw.natAbs : Int)) = v.raw by omega, Number.ofRaw_raw]
    have hread : unary dialect (k + 1) (m :: t :: rest)
        = .ok (.literal (.ofRaw (-(v.raw.natAbs : Int))), rest) :=
      unary_minus_numeral hm ht.1 (numeral_minus_of_isNumeral ht)
    rw [hv] at hread
    exact hread
  · rename_i hneg
    obtain ⟨t, rfl, ht⟩ := h
    obtain ⟨k, rfl⟩ := Nat.exists_eq_add_of_le' (show 2 ≤ n by simp at hn; omega)
    have hv : Number.ofRaw (v.raw.natAbs : Int) = v := by
      rw [show (v.raw.natAbs : Int) = v.raw by omega, Number.ofRaw_raw]
    have hp : prefixOp? t = none := prefixOp?_of_kind (by simp [ht.1]) (by simp [ht.1])
    have hread : unary dialect (k + 2) (t :: rest)
        = .ok (.literal (.ofRaw (v.raw.natAbs : Int)), rest) :=
      (unary_of_primary hp).trans (primary_numeral ht.1 (numeral_of_isNumeral ht))
    rw [hv] at hread
    exact hread

/-- A minus sign before an unsigned numeral is read as part of it. -/
theorem readsUnary_signed {v : Number} (hv : 0 ≤ v.raw) (h : Written (.unary .neg (.literal v)) toks) :
    ReadsUnary (.unary .neg (.literal v)) toks := by
  obtain ⟨m, ts, rfl, hm, hoperand⟩ := h
  have hbare : decide ((Expr.literal v).strength < PrefixOp.neg.strength) = false := by
    rw [Expr.strength, if_neg (Int.not_lt.mpr hv)]
    decide
  rw [hbare] at hoperand
  have hwritten : Written (.literal v) ts := hoperand
  rw [Written, if_neg (Int.not_lt.mpr hv)] at hwritten
  obtain ⟨t, rfl, ht⟩ := hwritten
  intro n rest hn
  obtain ⟨k, rfl⟩ := Nat.exists_eq_add_of_le' (show 1 ≤ n by simp at hn; omega)
  have hnorm : (Expr.unary .neg (.literal v)).norm = .literal (.ofRaw (-(v.raw.natAbs : Int))) := by
    rw [Expr.norm, Expr.signed?, if_pos hv, Option.getD_some, Number.neg,
      show (v.raw.natAbs : Int) = v.raw by omega]
  rw [hnorm]
  exact unary_minus_numeral hm ht.1 (numeral_minus_of_isNumeral ht)

/-- Unless it is an unsigned numeral, an operand of a minus sign does not begin with a numeral. -/
theorem kind_ne_number_of_operand (hsigned : Expr.signed? .neg e = none)
    (h : Operand (decide (e.strength < PrefixOp.neg.strength)) (Written e) toks) :
    (peek (toks ++ rest)).kind ≠ .number := by
  by_cases hwraps : e.strength < PrefixOp.neg.strength
  · rw [decide_eq_true hwraps] at h
    obtain ⟨o, inner, c, rfl, ho, _, _⟩ := h
    have hpeek : peek (o :: (inner ++ [c]) ++ rest) = o := rfl
    rw [hpeek, ho]
    decide
  · rw [decide_eq_false hwraps] at h
    cases e with
    | ident x =>
      obtain ⟨t, rfl, hkind, _⟩ := h
      have hpeek : peek ([t] ++ rest) = t := rfl
      rw [hpeek, hkind]
      decide
    | literal v =>
      have hneg : v.raw < 0 := by
        refine Int.not_le.mp fun hle => ?_
        rw [Expr.signed?, if_pos hle] at hsigned
        cases hsigned
      have hwritten : Written (.literal v) toks := h
      rw [Written, if_pos hneg] at hwritten
      obtain ⟨m, t, rfl, hm, _⟩ := hwritten
      exact kind_ne_number_of_prefixOp? (show prefixOp? (peek ([m, t] ++ rest)) = _ from hm)
    | unary op e =>
      obtain ⟨t, ts, rfl, ht, _⟩ := h
      exact kind_ne_number_of_prefixOp? (show prefixOp? (peek (t :: ts ++ rest)) = _ from ht)
    | binary l op r =>
      refine absurd (Nat.lt_of_le_of_lt (strength_le_pow op) (pow_strength_lt .neg)) ?_
      exact hwraps
    | stray node => exact (show False from h).elim

theorem readsUnary_unary {op : PrefixOp} (hreads : Reads e)
    (hunary : ∀ toks, Written e toks → InfixOp.pow.strength < e.strength → ReadsUnary e toks)
    (h : Written (.unary op e) toks) : ReadsUnary (.unary op e) toks := by
  cases hsigned : Expr.signed? op e with
  | some v =>
    rw [Expr.signed?.eq_def] at hsigned
    split at hsigned
    · split at hsigned
      · exact readsUnary_signed ‹_› h
      · cases hsigned
    · cases hsigned
  | none =>
    obtain ⟨t, ts, rfl, ht, hoperand⟩ := h
    have hread : ReadsUnary e ts := by
      by_cases hwraps : e.strength < op.strength
      · rw [decide_eq_true hwraps] at hoperand
        exact (hreads.parenthesized hoperand).1
      · rw [decide_eq_false hwraps] at hoperand
        exact hunary ts hoperand (Nat.lt_of_lt_of_le (pow_strength_lt op) (Nat.not_lt.mp hwraps))
    intro n rest hn
    rw [List.length_cons] at hn
    obtain ⟨k, rfl⟩ := Nat.exists_eq_add_of_le' (show 1 ≤ n by omega)
    rw [Expr.norm, hsigned, Option.getD_none, List.cons_append]
    refine unary_of_prefixOp ht ?_ (hread k rest (by omega))
    rintro rfl
    exact kind_ne_number_of_operand hsigned hoperand

/-! ## Expressions -/

theorem length_pos_of_written (h : Written e toks) : 0 < toks.length := by
  cases e with
  | ident x => obtain ⟨t, rfl, _⟩ := h; exact Nat.one_pos
  | literal v =>
    rw [Written] at h
    split at h
    · obtain ⟨m, t, rfl, _⟩ := h; exact Nat.two_pos
    · obtain ⟨t, rfl, _⟩ := h; exact Nat.one_pos
  | unary op e => obtain ⟨t, ts, rfl, _⟩ := h; exact Nat.succ_pos _
  | binary l op r =>
    obtain ⟨ls, t, rs, rfl, _⟩ := h
    rw [List.length_append, List.length_cons]
    omega
  | stray node => exact h.elim

/-- An expression stronger than the operator before it is its operand as a whole. -/
theorem Grafts.of_reads_of_lt (h : Reads e) (hwritten : Written e toks) (ht : infixOp? t = some op)
    (hright : op.isRightAssociative = false) (hlt : op.strength < e.strength)
    (hleast : least ≤ op.strength) (hstops : Stops dialect (op.strength + 1) rest)
    (hn : 3 * toks.length + 3 < n) : ∃ m, n ≤ m + 3 * toks.length + 3 ∧
      climb dialect n least a (t :: (toks ++ rest)) = climb dialect m least (a.graft op e.norm) rest := by
  rw [graft_norm_of_ne (Nat.ne_of_gt hlt)]
  rw [← rightStrength_of_not op hright] at hstops
  refine climb_operand ht hleast hstops (fun k hk => ?_) hn
  have hle : rightStrength dialect op ≤ e.strength := by
    rw [rightStrength_of_not op hright]
    exact hlt
  exact h toks hwritten k _ rest hle (hstops.mono (Nat.le_trans hle (strength_le_reach e))) hk

/-- What is read as a primary expression is read by itself and as an operand. -/
theorem reads_grafts_of_readsUnary (hstrength : InfixOp.pow.strength < e.strength)
    (h : ∀ toks, Written e toks → ReadsUnary e toks) : Reads e ∧ Grafts e := by
  have hreads : Reads e := fun toks htoks n least rest _ _ hn =>
    (h toks htoks).expression (length_pos_of_written htoks) hn
  refine ⟨hreads, fun toks htoks t op ht hright _ n least a rest hleast hstops hn => ?_⟩
  exact Grafts.of_reads_of_lt hreads htoks ht hright
    (Nat.lt_of_le_of_lt (strength_le_pow op) hstrength) hleast hstops hn

theorem reads_binary (hl : Reads l) (hr : Reads r) (hgr : Grafts r) : Reads (.binary l op r) := by
  rintro toks ⟨ls, t, rs, rfl, ht, hls, hrs⟩ n least rest hleast hstops hn
  rw [List.length_append, List.length_cons] at hn ⊢
  rw [List.append_assoc, List.cons_append]
  obtain ⟨m, hm, hleft⟩ := hl.left (n := n) hls ht hleast (rs ++ rest) (by omega)
  obtain ⟨k, hk, hright⟩ := hr.right (a := l.norm) (n := m) hgr hrs ht hleast hstops (by omega)
  exact ⟨k, by omega, hleft.trans hright⟩

theorem grafts_binary (hl : Reads l) (hgl : Grafts l) (hr : Reads r) (hgr : Grafts r) :
    Grafts (.binary l o r) := by
  intro toks htoks t op ht hright hle n least a rest hleast hstops hn
  -- a stronger row is an operand, an equally strong one is continued
  rcases Nat.lt_or_eq_of_le hle with hlt | heq
  · exact Grafts.of_reads_of_lt (reads_binary hl hr hgr) htoks ht hright hlt hleast hstops hn
  · obtain ⟨ls, u, rs, rfl, hu, hls, hrs⟩ := htoks
    have ho : o.strength = op.strength := heq.symm
    have horight : o.isRightAssociative = false := (isRightAssociative_congr ho).trans hright
    rw [← ho, ← rightStrength_of_not o horight] at hstops
    rw [List.length_append, List.length_cons] at hn ⊢
    rw [List.append_assoc, List.cons_append]
    obtain ⟨m, hm, hleft⟩ :=
      Grafts.left (a := a) (n := n) hl hgl hls ht hu hright ho hleast (rs ++ rest) (by omega)
    obtain ⟨k, hk, hread⟩ :=
      hr.right (a := a.graft op l.norm) (n := m) hgr hrs hu (ho ▸ hleast) hstops (by omega)
    refine ⟨k, by omega, hleft.trans (hread.trans ?_)⟩
    -- the two fronts go on in either order
    rw [Expr.norm]
    split
    · rw [Expr.graft_graft ho]
    · rw [Expr.graft_binary_of_eq ho]

/-- **The reader at printed tokens**, for every legible expression. -/
theorem reads_grafts (e : Expr) : Reads e ∧ Grafts e ∧
    ∀ toks, Written e toks → InfixOp.pow.strength < e.strength → ReadsUnary e toks := by
  have hatom : InfixOp.pow.strength < atomStrength := by decide
  induction e with
  | ident x =>
    have hstrength : InfixOp.pow.strength < (Expr.ident x).strength := hatom
    have hunary : ∀ toks, Written (.ident x) toks → ReadsUnary (.ident x) toks :=
      fun toks => readsUnary_ident
    obtain ⟨hreads, hgrafts⟩ := reads_grafts_of_readsUnary hstrength hunary
    exact ⟨hreads, hgrafts, fun toks h _ => hunary toks h⟩
  | literal v =>
    have hunary : ∀ toks, Written (.literal v) toks → ReadsUnary (.literal v) toks :=
      fun toks => readsUnary_literal
    have hstrength : InfixOp.pow.strength < (Expr.literal v).strength := by
      rw [Expr.strength]
      split
      · exact pow_strength_lt .neg
      · exact hatom
    obtain ⟨hreads, hgrafts⟩ := reads_grafts_of_readsUnary hstrength hunary
    exact ⟨hreads, hgrafts, fun toks h _ => hunary toks h⟩
  | unary op e ih =>
    have hunary : ∀ toks, Written (.unary op e) toks → ReadsUnary (.unary op e) toks :=
      fun toks => readsUnary_unary ih.1 ih.2.2
    have hstrength : InfixOp.pow.strength < (Expr.unary op e).strength := pow_strength_lt op
    obtain ⟨hreads, hgrafts⟩ := reads_grafts_of_readsUnary hstrength hunary
    exact ⟨hreads, hgrafts, fun toks h _ => hunary toks h⟩
  | binary l op r ihl ihr =>
    refine ⟨reads_binary ihl.1 ihr.1 ihr.2.1, grafts_binary ihl.1 ihl.2.1 ihr.1 ihr.2.1, ?_⟩
    intro toks _ hlt
    exact absurd hlt (Nat.not_lt.mpr (strength_le_pow op))
  | stray node =>
    exact ⟨fun toks h => h.elim, fun toks h => h.elim, fun toks h => h.elim⟩

/-! ## Programs -/

theorem expression_of_written (h : Written e toks) (hrest : infixOp? (peek rest) = none) :
    dialect.expression (toks ++ rest) = .ok (e.norm, rest) := by
  have hstops : ∀ b, Stops dialect b rest := fun b => stops_of_none hrest
  have hbound : 3 * toks.length < bound (toks ++ rest) := by
    rw [bound, List.length_append]
    omega
  obtain ⟨m, hm, hread⟩ := (reads_grafts e).1 toks h _ 0 rest (Nat.zero_le _) (hstops _) hbound
  obtain ⟨m, rfl⟩ := Nat.exists_eq_add_of_le' (show 1 ≤ m by omega)
  rw [Dialect.expression, hread, climb_of_stops (hstops 0)]

theorem statement_of_written {s : Stmt} (h : WrittenStmt s toks) (hrest : infixOp? (peek rest) = none) :
    Parser.statement (toks ++ rest) = .ok (s.norm, rest) := by
  cases s with
  | stray node => exact h.elim
  | assign x e =>
    obtain ⟨t, q, ts, rfl, hkind, rfl, _, hq, hts⟩ := h
    rw [List.cons_append, List.cons_append, Parser.statement, expect_of_kind _ hkind]
    simp only [bind, Except.bind, expect_of_kind _ hq, expression_of_written hts hrest]
    rfl

/-- Behind a statement comes the next one, or the end. -/
theorem infixOp?_peek_of_writtenProgram {stmts : List Stmt} (h : WrittenProgram stmts toks)
    (q : Position) : infixOp? (peek (toks ++ [⟨.eof, "", q⟩])) = none := by
  cases stmts with
  | nil => rw [show toks = [] from h]; rfl
  | cons s stmts =>
    obtain ⟨ts, us, rfl, hs, _⟩ := h
    cases s with
    | stray node => exact hs.elim
    | assign x e =>
      obtain ⟨t, _, _, rfl, _, _, hinfix, _⟩ := hs
      exact hinfix

theorem kind_peek_ne_eof {s : Stmt} (h : WrittenStmt s toks) : (peek (toks ++ rest)).kind ≠ .eof := by
  cases s with
  | stray node => exact h.elim
  | assign x e =>
    obtain ⟨t, q, ts, rfl, hkind, _⟩ := h
    have hpeek : peek (t :: q :: ts ++ rest) = t := rfl
    rw [hpeek, hkind]
    decide

theorem statements_of_written {stmts : List Stmt} (h : WrittenProgram stmts toks) (q : Position)
    (hn : stmts.length < n) :
    Parser.statements n (toks ++ [⟨.eof, "", q⟩]) = .ok (stmts.map Stmt.norm) := by
  induction stmts generalizing toks n with
  | nil =>
    obtain ⟨k, rfl⟩ := Nat.exists_eq_add_of_le' (show 1 ≤ n by omega)
    rw [show toks = [] from h, Parser.statements]
    rfl
  | cons s stmts ih =>
    obtain ⟨ts, us, rfl, hs, hstmts⟩ := h
    rw [List.length_cons] at hn
    obtain ⟨k, rfl⟩ := Nat.exists_eq_add_of_le' (show 1 ≤ n by omega)
    have hstatement := statement_of_written hs (infixOp?_peek_of_writtenProgram hstmts q)
    have hmore := ih hstmts (n := k) (by omega)
    rw [List.append_assoc, Parser.statements, if_neg (kind_peek_ne_eof hs), hstatement]
    simp only [bind, Except.bind, hmore]
    rfl

theorem length_le_of_writtenProgram {stmts : List Stmt} (h : WrittenProgram stmts toks) :
    stmts.length ≤ toks.length := by
  induction stmts generalizing toks with
  | nil => exact Nat.zero_le _
  | cons s stmts ih =>
    obtain ⟨ts, us, rfl, hs, hstmts⟩ := h
    have hpos : 0 < ts.length := by
      cases s with
      | stray node => exact hs.elim
      | assign x e => obtain ⟨t, q, es, rfl, _⟩ := hs; exact Nat.succ_pos _
    have hle := ih hstmts
    rw [List.length_append, List.length_cons]
    omega

/-- **Reading the tokens of a program** gives its normal form. -/
theorem parse_of_written {text : String} {stmts : List Stmt} {q : Position}
    (h : WrittenProgram stmts toks) (htext : tokenize text = .ok (toks ++ [⟨.eof, "", q⟩])) :
    parse text = .ok (stmts.map Stmt.norm) := by
  have hlength : stmts.length < (toks ++ [(⟨.eof, "", q⟩ : Token)]).length + 1 := by
    have hle := length_le_of_writtenProgram h
    rw [List.length_append]
    omega
  rw [parse, htext]
  exact statements_of_written h q hlength

/-- **Printed text reads back.**  Every legible program can be printed, whatever the limit on the length
of lines, and reading the text gives the program with every right-hand side in normal form. -/
theorem parse_print (limit : Int) {stmts : List Stmt} (h : ∀ s ∈ stmts, s.Legible) :
    ∃ text, print limit stmts = .ok text ∧ parse text = .ok (stmts.map Stmt.norm) := by
  obtain ⟨text, toks, q, hprint, htoks, htokenize⟩ := tokenize_print limit h
  exact ⟨text, hprint, parse_of_written htoks htokenize⟩

/-- A program with a row to be regrouped, a signed numeral, a power of a power and two minus signs:
`x=a+b-c+-1 y=sqrt x^-2^n z=y- -x`. -/
def flattened : List Stmt :=
  [.assign "x" (.binary (.ident "a") .add
      (.binary (.binary (.ident "b") .sub (.ident "c")) .add (.unary .neg (.literal .one)))),
    .assign "y" (.binary (.unary .sqrt (.ident "x")) .pow
      (.binary (.literal (.ofInt (-2))) .pow (.ident "n"))),
    .assign "z" (.binary (.ident "y") .sub (.unary .neg (.ident "x")))]

theorem parse_print_flattened :
    (∀ s ∈ flattened, s.Legible) ∧ ∃ text, print 10 flattened = .ok text ∧ parse text = .ok
      [.assign "x" (.binary (.binary (.binary (.ident "a") .add (.ident "b")) .sub (.ident "c")) .add
          (.literal (.ofInt (-1)))),
        .assign "y" (.binary (.unary .sqrt (.ident "x")) .pow
          (.binary (.literal (.ofInt (-2))) .pow (.ident "n"))),
        .assign "z" (.binary (.ident "y") .sub (.unary .neg (.ident "x")))] := by
  have hlegible : ∀ s ∈ flattened, s.Legible := by decide +kernel
  exact ⟨hlegible, parse_print 10 hlegible⟩

end Target

end Straightline
