import Straightline.Proofs.Climbing
import Straightline.Proofs.Derivation

/-!
# What is read is derived

The reader of source programs returns nothing but what the grammar allows.  For expressions this is an
induction on the depth of the calls (`sound`): each reader takes some tokens off the front, and these
derive the tree it returns.  The tiers of the grammar come out of the strengths that the reader climbs
by: an expression so far is *ready* for the operators that may follow it (`Ready`), since an operator
that is too strong for it would have gone to its right operand.

The tokens are those of a text.  Among all tokens there are some that no text has, such as a name spelt
like a sign, and the reader takes them for operators.
-/

namespace Straightline.Source

open Grammar Lexer

variable {e l : Expr} {op : InfixOp} {t : Token} {toks ls rest : List Token} {n least : Nat}

/-! ## Tokens -/

/-- **A token of a text**: one that was split off it, or the end. -/
def Genuine (t : Token) : Prop := Scanned t ∨ t.kind = .eof

theorem Genuine.scanned (h : Genuine t) (hne : t.kind ≠ .eof) : Scanned t := h.resolve_right hne

theorem infixOp?_of_isInfix (h : IsInfix op t) : infixOp? t = some op := by
  obtain ⟨kind, text, p⟩ := t
  obtain ⟨rfl, rfl⟩ := h
  exact infixOp?_token op p

theorem prefixOp?_of_isPrefix {op : PrefixOp} (h : IsPrefix op t) : prefixOp? t = some op := by
  obtain ⟨kind, text, p⟩ := t
  obtain ⟨rfl, rfl⟩ := h
  exact prefixOp?_token op p

/-- A word does not begin like a mark. -/
theorem infix_word_head (op : InfixOp) (h : op.isWord = true) :
    ∃ c cs, op.token.toList = c :: cs ∧ isOperator c = false ∧ pairsWithEquals c = false := by
  cases op with
  | and | or => exact ⟨_, _, rfl, by decide, by decide⟩
  | _ => cases h

theorem prefix_word_head (op : PrefixOp) (h : op.isWord = true) :
    ∃ c cs, op.token.toList = c :: cs ∧ isOperator c = false ∧ pairsWithEquals c = false := by
  cases op with
  | neg => cases h
  | _ => exact ⟨_, _, rfl, by decide, by decide⟩

/-- A token of the kind of a mark does not spell a word. -/
theorem Genuine.ne_word {word : String} {c : Char} {cs : List Char} (h : Genuine t)
    (ht : t.kind = .op) (hword : word.toList = c :: cs) (hc : isOperator c = false)
    (hc' : pairsWithEquals c = false) : t.text ≠ word := by
  rintro rfl
  obtain ⟨d, ds, hd, hmark⟩ := (h.scanned (by simp [ht])).operator ht
  obtain ⟨rfl, rfl⟩ := List.cons.inj (hword.symm.trans hd)
  rcases hmark with hmark | hmark
  · simp [hc] at hmark
  · simp [hc'] at hmark

theorem isInfix_of_infixOp? (ht : Genuine t) (h : infixOp? t = some op) : IsInfix op t := by
  unfold infixOp? at h
  split at h
  · rename_i hkind
    have htext := eq_token_of_infixOp? h
    refine ⟨?_, htext⟩
    rcases hkind with hkind | ⟨hkind, hword⟩
    · cases hword : op.isWord with
      | false => exact hkind
      | true =>
        obtain ⟨c, cs, hcs, hc, hc'⟩ := infix_word_head op hword
        exact absurd htext (ht.ne_word hkind hcs hc hc')
    · have hop : op.isWord = true := by
        rcases hword with hword | hword <;> rw [hword] at h <;> cases h <;> rfl
      rw [hop]
      exact hkind
  · cases h

theorem isPrefix_of_prefixOp? {op : PrefixOp} (ht : Genuine t) (h : prefixOp? t = some op) :
    IsPrefix op t := by
  unfold prefixOp? at h
  split at h
  · rename_i hkind
    have htext := eq_token_of_prefixOp? h
    refine ⟨?_, htext⟩
    cases hword : op.isWord with
    | false =>
      rcases hkind with hkind | hkind
      · exact hkind
      · -- the only mark is the minus sign, which is no name
        obtain rfl : op = .neg := Decidable.of_not_not (of_decide_eq_false hword)
        obtain ⟨c, cs, hcs, hname⟩ := (ht.scanned (by simp [hkind])).spellsName hkind
        have hminus : t.text.toList = ['-'] := by rw [htext]; rfl
        obtain ⟨rfl, rfl⟩ := List.cons.inj (hminus.symm.trans hcs)
        exact absurd hname.operator (by decide)
    | true =>
      rcases hkind with hkind | hkind
      · obtain ⟨c, cs, hcs, hc, hc'⟩ := prefix_word_head op hword
        exact absurd htext (ht.ne_word hkind hcs hc hc')
      · exact hkind
  · cases h

theorem token_mem_operatorWords (op : PrefixOp) (h : op.isWord = true) : op.token ∈ operatorWords := by
  revert h
  cases op <;> decide

theorem prefixOp?_or_reserved_of_mem :
    ∀ word ∈ operatorWords, PrefixOp.ofToken? word ≠ none ∨ word ∈ dialect.reserved := by
  decide

/-- The names that can stand in an expression, as the reader tells them. -/
theorem isFree_iff (ht : Genuine t) (hkind : t.kind = .ident) :
    IsFree t ↔ prefixOp? t = none ∧ t.text ∉ dialect.reserved := by
  constructor
  · rintro ⟨-, hoperator, hstatement⟩
    constructor
    · -- a prefix operator that is a name is a word
      cases hop : prefixOp? t with
      | none => rfl
      | some op =>
        obtain ⟨hkind', htext⟩ := isPrefix_of_prefixOp? ht hop
        cases hword : op.isWord with
        | false => simp [hkind, hword] at hkind'
        | true => exact absurd (htext ▸ token_mem_operatorWords op hword) hoperator
    · intro hmem
      rcases List.mem_append.mp hmem with hmem | hmem
      · have hsub : ∀ word ∈ ["and", "or"], word ∈ operatorWords := by decide
        exact hoperator (hsub _ hmem)
      · exact hstatement hmem
  · rintro ⟨hnone, hreserved⟩
    refine ⟨hkind, ?_, fun hmem => hreserved (List.mem_append_right _ hmem)⟩
    intro hmem
    rcases prefixOp?_or_reserved_of_mem _ hmem with hsome | hmem
    · exact hsome (by simpa [prefixOp?, hkind] using hnone)
    · exact hreserved hmem

theorem ofText_of_numeral {v : Number} (h : numeral false t = .ok v) : Number.ofText t.text = .ok v :=
  mapError_eq_ok.mp h

/-- A signed numeral is one without its sign, too. -/
theorem ofText_of_signed {v : Number} (ht : Genuine t) (hkind : t.kind = .number)
    (h : numeral true t = .ok v) :
    Number.ofText ("-" ++ t.text) = .ok v ∧ ∃ u, Number.ofText t.text = .ok u := by
  have hsigned : Number.ofText ("-" ++ t.text) = .ok v := mapError_eq_ok.mp h
  obtain ⟨c, cs, hcs, hspace, hmark⟩ := (ht.scanned (by simp [hkind])).numeral hkind
  have hminus : c ≠ '-' := by
    rintro rfl
    cases hmark
  exact ⟨hsigned, Number.exists_ofText_of_minus hcs hspace hminus hsigned⟩

/-! ## What is read is derived -/

theorem rightStrength_eq (op : InfixOp) :
    rightStrength dialect op = if op = .pow then 7 else op.sourceStrength + 1 := by
  cases op <;> rfl

theorem sourceStrength_lt {op : InfixOp} (h : op ≠ .pow) : op.sourceStrength < 7 := by
  revert h
  cases op <;> decide

/-- The tiers that expressions with operators of strength `least` and above belong to. -/
def Admits (least : Nat) (k : Tier) : Prop := k = .disjunction ∨ k.height ≤ least

theorem Admits.height_le {k : Tier} (h : Admits least k) (hle : least ≤ op.sourceStrength) :
    k.height ≤ (Tier.of op).height := by
  have hpos := (Tier.of op).height_pos
  rw [Tier.height_of] at *
  rcases h with rfl | h
  · exact hpos
  · omega

/-- **An expression read so far**, before more operators: it is derived at the tiers asked for, and the
next operator can take it as its left operand. -/
structure Ready (least : Nat) (l : Expr) (ls rest : List Token) : Prop where
  whole : ∀ k, Admits least k → Derives (.tier k l) ls
  left : ∀ op, infixOp? (peek rest) = some op → DerivesLeft op l ls

theorem Ready.of_unary (h : Derives (.unary l) ls) (least : Nat) (rest : List Token) :
    Ready least l ls rest where
  whole k _ := h.of_unary k
  left op _ := h.left op

/-- Behind an operator and its operand comes no operator that the operand would have taken. -/
theorem Ready.of_stops (h : Derives (.tier (.of op) l) ls) (hle : least ≤ op.sourceStrength)
    (hstops : Stops dialect (rightStrength dialect op) rest) : Ready least l ls rest where
  whole k hk := h.lower (hk.height_le hle)
  left o ho := by
    have hlt : o.sourceStrength < rightStrength dialect op := hstops o ho
    -- a power would have been taken in by the operand, also behind another power
    have hweak : o.sourceStrength ≤ op.sourceStrength ∧ o ≠ .pow := by
      rw [rightStrength_eq] at hlt
      split at hlt
      · rename_i hpow
        subst hpow
        refine ⟨Nat.le_of_lt hlt, ?_⟩
        rintro rfl
        exact absurd hlt (by decide)
      · rename_i hpow
        refine ⟨by omega, ?_⟩
        rintro rfl
        have hpow := sourceStrength_lt hpow
        have htop : InfixOp.pow.sourceStrength = 7 := rfl
        omega
    unfold DerivesLeft
    rw [if_neg hweak.2]
    refine h.lower ?_
    rw [Tier.height_of, Tier.height_of]
    exact hweak.1

/-- Where no operator follows that could go on, the row ends without another token. -/
theorem Ready.stop (h : Ready least l ls toks) (hstops : Stops dialect least toks) :
    ∃ used, toks = used ++ toks ∧ (∀ k, Admits least k → Derives (.tier k l) (ls ++ used)) ∧
      Stops dialect least toks := by
  refine ⟨[], rfl, ?_, hstops⟩
  rw [List.append_nil]
  exact h.whole

/-- **What the readers return is derived**, if they call each other at most `n` deep. -/
structure Sound (n : Nat) : Prop where
  expression : ∀ {least toks e rest}, (∀ t ∈ toks, Genuine t) →
    expression dialect n least toks = .ok (e, rest) →
      ∃ used, toks = used ++ rest ∧ (∀ k, Admits least k → Derives (.tier k e) used) ∧
        Stops dialect least rest
  climb : ∀ {least toks l ls e rest}, (∀ t ∈ toks, Genuine t) → Ready least l ls toks →
    climb dialect n least l toks = .ok (e, rest) →
      ∃ used, toks = used ++ rest ∧ (∀ k, Admits least k → Derives (.tier k e) (ls ++ used)) ∧
        Stops dialect least rest
  unary : ∀ {toks e rest}, (∀ t ∈ toks, Genuine t) → unary dialect n toks = .ok (e, rest) →
    ∃ used, toks = used ++ rest ∧ Derives (.unary e) used
  primary : ∀ {toks e rest}, (∀ t ∈ toks, Genuine t) → prefixOp? (peek toks) = none →
    primary dialect n toks = .ok (e, rest) →
      ∃ used, toks = used ++ rest ∧ Derives (.primary e) used
  arguments : ∀ {close what toks es rest}, (∀ t ∈ toks, Genuine t) →
    arguments dialect n close what toks = .ok (es, rest) → close ≠ .eof →
      ∃ used c, toks = used ++ c :: rest ∧ c.kind = close ∧ Derives (.arguments es) used
  argumentsFrom : ∀ {close what toks es rest}, (∀ t ∈ toks, Genuine t) →
    argumentsFrom dialect n close what toks = .ok (es, rest) →
      ∃ used c, toks = used ++ c :: rest ∧ c.kind = close ∧ Derives (.row es) used

/-- Tokens behind tokens of a text are tokens of the text. -/
theorem genuine_of_append {used : List Token} (h : ∀ t ∈ toks, Genuine t) (htoks : toks = used ++ rest) :
    ∀ t ∈ rest, Genuine t :=
  fun t ht => h t (htoks ▸ List.mem_append_right _ ht)

theorem Sound.expression_succ (h : Sound n) (hgenuine : ∀ t ∈ toks, Genuine t)
    (hread : Grammar.expression dialect (n + 1) least toks = .ok (e, rest)) :
    ∃ used, toks = used ++ rest ∧ (∀ k, Admits least k → Derives (.tier k e) used) ∧
      Stops dialect least rest := by
  rw [Grammar.expression] at hread
  obtain ⟨⟨l, rest₁⟩, hunary, hclimb⟩ := bind_eq_ok.mp hread
  obtain ⟨ls, htoks, hl⟩ := h.unary hgenuine hunary
  obtain ⟨used, hused, he, hstops⟩ :=
    h.climb (genuine_of_append hgenuine htoks) (Ready.of_unary hl least rest₁) hclimb
  exact ⟨ls ++ used, by rw [htoks, hused, List.append_assoc], he, hstops⟩

/-- A step of climbing: the next operator is too weak, or it is taken in with its operand. -/
theorem Sound.climb_succ (h : Sound n) (hgenuine : ∀ t ∈ toks, Genuine t) (hready : Ready least l ls toks)
    (hread : Grammar.climb dialect (n + 1) least l toks = .ok (e, rest)) :
    ∃ used, toks = used ++ rest ∧ (∀ k, Admits least k → Derives (.tier k e) (ls ++ used)) ∧
      Stops dialect least rest := by
  cases toks with
  | nil =>
    rw [Grammar.climb] at hread
    cases hread
    exact hready.stop (stops_of_none rfl)
  | cons t toks =>
    rw [Grammar.climb] at hread
    split at hread
    · rename_i hnone
      cases hread
      exact hready.stop (stops_of_none hnone)
    · rename_i op hop
      split at hread
      · rename_i hweak
        cases hread
        exact hready.stop (stops_operator hop hweak)
      · rename_i hstrong
        obtain ⟨⟨r, rest₁⟩, hright, hclimb⟩ := bind_eq_ok.mp hread
        have htail : ∀ u ∈ toks, Genuine u := fun u hu => hgenuine u (List.mem_cons_of_mem _ hu)
        obtain ⟨rs, rfl, hr, hstops⟩ := h.expression htail hright
        have hle : least ≤ op.sourceStrength := Nat.not_lt.mp hstrong
        have ht := isInfix_of_infixOp? (hgenuine t List.mem_cons_self) hop
        have hbinary := Derives.binary ht (hready.left op hop) fun k hk => hr k (Or.inr hk)
        -- the operand stopped at `rest₁`, so that the application is ready for what follows there
        obtain ⟨used, rfl, he, hstops'⟩ :=
          h.climb (genuine_of_append htail rfl) (Ready.of_stops hbinary hle hstops) hclimb
        refine ⟨t :: (rs ++ used), by simp, ?_, hstops'⟩
        intro k hk
        have hk := he k hk
        rw [List.append_assoc, List.cons_append] at hk
        exact hk

theorem Sound.unary_succ (h : Sound n) (hgenuine : ∀ t ∈ toks, Genuine t)
    (hread : Grammar.unary dialect (n + 1) toks = .ok (e, rest)) :
    ∃ used, toks = used ++ rest ∧ Derives (.unary e) used := by
  rw [Grammar.unary] at hread
  split at hread
  · rename_i hnone
    obtain ⟨used, htoks, he⟩ := h.primary hgenuine hnone hread
    exact ⟨used, htoks, .plain he⟩
  · rename_i op hop
    cases toks with
    | nil => cases hop
    | cons t toks =>
      have ht := isPrefix_of_prefixOp? (hgenuine t List.mem_cons_self) hop
      have htail : ∀ u ∈ toks, Genuine u := fun u hu => hgenuine u (List.mem_cons_of_mem _ hu)
      rw [List.tail_cons] at hread
      split at hread
      · -- a minus sign in front of a numeral belongs to the literal
        rename_i hsigned
        obtain ⟨rfl, hnumber⟩ := hsigned
        obtain ⟨v, hv, heq⟩ := bind_eq_ok.mp hread
        cases toks with
        | nil => cases hnumber
        | cons u us =>
          cases heq
          obtain ⟨hvalue, w, hw⟩ := ofText_of_signed (htail u List.mem_cons_self) hnumber hv
          exact ⟨[t, u], rfl, .signed ht hnumber hw hvalue⟩
      · rename_i hunsigned
        obtain ⟨⟨operand, rest₁⟩, hoperand, heq⟩ := bind_eq_ok.mp hread
        cases heq
        obtain ⟨used, rfl, hused⟩ := h.unary htail hoperand
        refine ⟨t :: used, rfl, .applied ht ?_ hused⟩
        rintro hneg ⟨u, us, rfl, hnumber⟩
        exact hunsigned ⟨hneg, hnumber⟩

theorem foldOp_ofName?_eq_some {s : String} {op : FoldOp} : FoldOp.ofName? s = some op ↔ s = op.name := by
  unfold FoldOp.ofName?
  cases op <;> grind [FoldOp.name]

/-- The call of a function or reduction is derived, whichever it is. -/
theorem Derives.called {f o c : Token} {es : List Expr} (hf : IsFree f) (ho : o.kind = .lparen)
    (h : Derives (.arguments es) toks) (hc : c.kind = .rparen) :
    Derives (.primary (callTree f.text es)) (f :: o :: (toks ++ [c])) := by
  unfold callTree
  split
  · rename_i op hop
    exact .fold hf.1 (foldOp_ofName?_eq_some.mp hop) ho h hc
  · rename_i hnone
    exact .call hf hnone ho h hc

theorem Sound.primary_succ (h : Sound n) (hgenuine : ∀ t ∈ toks, Genuine t)
    (hnone : prefixOp? (peek toks) = none)
    (hread : Grammar.primary dialect (n + 1) toks = .ok (e, rest)) :
    ∃ used, toks = used ++ rest ∧ Derives (.primary e) used := by
  cases toks with
  | nil =>
    rw [Grammar.primary] at hread
    cases hread
  | cons t toks =>
    rw [Grammar.primary] at hread
    have htail : ∀ u ∈ toks, Genuine u := fun u hu => hgenuine u (List.mem_cons_of_mem _ hu)
    split at hread
    · -- a numeral
      rename_i hkind
      obtain ⟨v, hv, heq⟩ := bind_eq_ok.mp hread
      cases heq
      exact ⟨[t], rfl, .numeral hkind (ofText_of_numeral hv)⟩
    · -- a name: no prefix operator, and not reserved
      rename_i hkind
      split at hread
      · cases hread
      · rename_i hreserved
        have hfree := (isFree_iff (hgenuine t List.mem_cons_self) hkind).mpr ⟨hnone, hreserved⟩
        change (if _ then _ else _) = _ at hread
        split at hread
        · rename_i hopen
          obtain ⟨⟨es, rest₁⟩, hargs, heq⟩ := bind_eq_ok.mp hread
          cases heq
          cases toks with
          | nil => cases hopen
          | cons o toks =>
            obtain ⟨used, c, rfl, hc, hes⟩ :=
              h.arguments (fun u hu => htail u (List.mem_cons_of_mem _ hu)) hargs (by decide)
            exact ⟨t :: o :: (used ++ [c]), by simp, .called hfree hopen hes hc⟩
        · cases hread
          exact ⟨[t], rfl, .named hfree⟩
    · -- an array
      rename_i hkind
      obtain ⟨⟨es, rest₁⟩, hitems, heq⟩ := bind_eq_ok.mp hread
      cases heq
      obtain ⟨used, c, rfl, hc, hes⟩ := h.arguments htail hitems (by decide)
      exact ⟨t :: (used ++ [c]), by simp, .array hkind hes hc⟩
    · -- an expression in parentheses
      rename_i hkind
      obtain ⟨⟨inner, rest₁⟩, hinner, hclose⟩ := bind_eq_ok.mp hread
      obtain ⟨⟨c, rest₂⟩, hexpect, heq⟩ := bind_eq_ok.mp hclose
      cases heq
      obtain ⟨rfl, hc⟩ := expect_eq_ok.mp hexpect
      obtain ⟨used, rfl, hused, -⟩ := h.expression htail hinner
      exact ⟨t :: (used ++ [c]), by simp, .group hkind (hused .disjunction (Or.inl rfl)) hc⟩
    · cases hread

theorem Sound.arguments_succ (h : Sound n) {close : Token.Kind} {what : Expectation} {es : List Expr}
    (hgenuine : ∀ t ∈ toks, Genuine t)
    (hread : Grammar.arguments dialect (n + 1) close what toks = .ok (es, rest)) (hclose : close ≠ .eof) :
    ∃ used c, toks = used ++ c :: rest ∧ c.kind = close ∧ Derives (.arguments es) used := by
  rw [Grammar.arguments] at hread
  split at hread
  · rename_i hpeek
    cases hread
    cases toks with
    | nil => exact absurd hpeek.symm hclose
    | cons c toks => exact ⟨[], c, rfl, hpeek, .empty⟩
  · obtain ⟨used, c, htoks, hc, hes⟩ := h.argumentsFrom hgenuine hread
    exact ⟨used, c, htoks, hc, .nonempty hes⟩

theorem Sound.argumentsFrom_succ (h : Sound n) {close : Token.Kind} {what : Expectation} {es : List Expr}
    (hgenuine : ∀ t ∈ toks, Genuine t)
    (hread : Grammar.argumentsFrom dialect (n + 1) close what toks = .ok (es, rest)) :
    ∃ used c, toks = used ++ c :: rest ∧ c.kind = close ∧ Derives (.row es) used := by
  rw [Grammar.argumentsFrom] at hread
  obtain ⟨⟨first, rest₁⟩, hfirst, hmore⟩ := bind_eq_ok.mp hread
  obtain ⟨used, rfl, hused, -⟩ := h.expression hgenuine hfirst
  have hused := hused .disjunction (Or.inl rfl)
  have hrest : ∀ t ∈ rest₁, Genuine t := genuine_of_append hgenuine rfl
  change (if _ then _ else _) = _ at hmore
  split at hmore
  · rename_i hcomma
    obtain ⟨⟨others, rest₂⟩, hothers, heq⟩ := bind_eq_ok.mp hmore
    cases heq
    cases rest₁ with
    | nil => cases hcomma
    | cons comma rest₁ =>
      obtain ⟨used', c, rfl, hc, hes⟩ :=
        h.argumentsFrom (fun u hu => hrest u (List.mem_cons_of_mem _ hu)) hothers
      exact ⟨used ++ comma :: used', c, by simp, hc, .more hused hcomma hes⟩
  · obtain ⟨⟨c, rest₂⟩, hexpect, heq⟩ := bind_eq_ok.mp hmore
    cases heq
    obtain ⟨rfl, hc⟩ := expect_eq_ok.mp hexpect
    exact ⟨used, c, rfl, hc, .single hused⟩

/-- **The readers are sound at every depth.**  At depth zero they fail, and one call deeper they rest on
what they read there. -/
theorem sound (n : Nat) : Sound n := by
  induction n with
  | zero =>
    refine ⟨?_, ?_, ?_, ?_, ?_, ?_⟩
    · intro _ _ _ _ _ hread
      cases hread
    · intro _ _ _ _ _ _ _ _ hread
      cases hread
    · intro _ _ _ _ hread
      cases hread
    · intro _ _ _ _ _ hread
      cases hread
    · intro _ _ _ _ _ _ hread
      cases hread
    · intro _ _ _ _ _ _ hread
      cases hread
  | succ n ih =>
    exact ⟨ih.expression_succ, ih.climb_succ, ih.unary_succ, ih.primary_succ, ih.arguments_succ,
      ih.argumentsFrom_succ⟩

/-! ## Statements -/

theorem derives_of_expression (hgenuine : ∀ t ∈ toks, Genuine t)
    (hread : dialect.expression toks = .ok (e, rest)) :
    ∃ used, toks = used ++ rest ∧ Derives (.tier .disjunction e) used := by
  obtain ⟨used, htoks, hused, -⟩ := (sound _).expression hgenuine hread
  exact ⟨used, htoks, hused .disjunction (Or.inl rfl)⟩

theorem derives_of_moreParams {names : List String} (ht : t.kind = .ident)
    (hread : Parser.moreParams toks = .ok (names, rest)) :
    ∃ used, toks = used ++ rest ∧ DerivesNames (t.text :: names) (t :: used) := by
  induction toks using Parser.moreParams.induct generalizing t names with
  | case1 comma u us hcomma hu ih =>
    rw [Parser.moreParams, if_pos hcomma, if_pos hu] at hread
    obtain ⟨⟨others, rest₁⟩, hothers, heq⟩ := bind_eq_ok.mp hread
    cases heq
    obtain ⟨used, rfl, hused⟩ := ih hu hothers
    exact ⟨comma :: u :: used, rfl, .more ht hcomma hused⟩
  | case2 comma u us hcomma hu =>
    rw [Parser.moreParams, if_pos hcomma, if_neg hu] at hread
    cases hread
  | case3 comma u us hcomma =>
    rw [Parser.moreParams, if_neg hcomma] at hread
    cases hread
    exact ⟨[], rfl, .single ht⟩
  | case4 u hu =>
    rw [Parser.moreParams, if_pos hu] at hread
    cases hread
  | case5 u hu =>
    rw [Parser.moreParams, if_neg hu] at hread
    cases hread
    exact ⟨[], rfl, .single ht⟩
  | case6 =>
    cases hread
    exact ⟨[], rfl, .single ht⟩

theorem derives_of_params {names : List String} (hread : Parser.params toks = .ok (names, rest)) :
    ∃ used, toks = used ++ rest ∧ DerivesParams names used := by
  cases toks with
  | nil =>
    cases hread
    exact ⟨[], rfl, Or.inl ⟨rfl, rfl⟩⟩
  | cons t toks =>
    rw [Parser.params] at hread
    split at hread
    · rename_i ht
      obtain ⟨⟨others, rest₁⟩, hothers, heq⟩ := bind_eq_ok.mp hread
      cases heq
      obtain ⟨used, rfl, hused⟩ := derives_of_moreParams ht hothers
      exact ⟨t :: used, rfl, Or.inr hused⟩
    · cases hread
      exact ⟨[], rfl, Or.inl ⟨rfl, rfl⟩⟩

theorem derives_of_definition {s : Stmt} {w : Token} (hw : IsStatementWord "define" w)
    (hgenuine : ∀ t ∈ toks, Genuine t) (hread : Parser.definition toks = .ok (s, rest)) :
    ∃ used, w :: toks = used ++ rest ∧ DerivesStmt s used := by
  obtain ⟨⟨f, toks₁⟩, hname, hread⟩ := bind_eq_ok.mp hread
  obtain ⟨⟨o, toks₂⟩, hopen, hread⟩ := bind_eq_ok.mp hread
  obtain ⟨⟨names, toks₃⟩, hparams, hread⟩ := bind_eq_ok.mp hread
  obtain ⟨⟨c, toks₄⟩, hclose, hread⟩ := bind_eq_ok.mp hread
  obtain ⟨⟨q, toks₅⟩, hequals, hread⟩ := bind_eq_ok.mp hread
  obtain ⟨⟨body, rest₁⟩, hbody, heq⟩ := bind_eq_ok.mp hread
  cases heq
  obtain ⟨rfl, hf⟩ := expect_eq_ok.mp hname
  obtain ⟨rfl, ho⟩ := expect_eq_ok.mp hopen
  obtain ⟨ps, rfl, hps⟩ := derives_of_params hparams
  obtain ⟨rfl, hc⟩ := expect_eq_ok.mp hclose
  obtain ⟨rfl, hq⟩ := expect_eq_ok.mp hequals
  obtain ⟨used, rfl, hused⟩ := derives_of_expression (fun u hu => hgenuine u (by simp [hu])) hbody
  exact ⟨w :: f :: o :: (ps ++ c :: q :: used), by simp, .define hw hf ho hps hc hq hused⟩

theorem derives_of_binding {s : Stmt} {w : Token} (hw : IsStatementWord "let" w)
    (hgenuine : ∀ t ∈ toks, Genuine t) (hread : Parser.binding toks = .ok (s, rest)) :
    ∃ used, w :: toks = used ++ rest ∧ DerivesStmt s used := by
  obtain ⟨⟨x, toks₁⟩, hname, hread⟩ := bind_eq_ok.mp hread
  obtain ⟨⟨q, toks₂⟩, hequals, hread⟩ := bind_eq_ok.mp hread
  obtain ⟨⟨body, rest₁⟩, hbody, heq⟩ := bind_eq_ok.mp hread
  cases heq
  obtain ⟨rfl, hx⟩ := expect_eq_ok.mp hname
  obtain ⟨rfl, hq⟩ := expect_eq_ok.mp hequals
  obtain ⟨used, rfl, hused⟩ := derives_of_expression (fun u hu => hgenuine u (by simp [hu])) hbody
  exact ⟨w :: x :: q :: used, rfl, .letVar hw hx hq hused⟩

theorem derives_of_statement {s : Stmt} (hgenuine : ∀ t ∈ toks, Genuine t)
    (hread : Parser.statement toks = .ok (s, rest)) :
    ∃ used, toks = used ++ rest ∧ DerivesStmt s used := by
  cases toks with
  | nil => cases hread
  | cons w toks =>
    have htail : ∀ u ∈ toks, Genuine u := fun u hu => hgenuine u (List.mem_cons_of_mem _ hu)
    unfold Parser.statement at hread
    dsimp only at hread
    split at hread
    · rename_i hw
      obtain ⟨⟨x, rest₁⟩, hname, heq⟩ := bind_eq_ok.mp hread
      cases heq
      obtain ⟨rfl, hx⟩ := expect_eq_ok.mp hname
      exact ⟨[w, x], rfl, .importVar hw hx⟩
    split at hread
    · rename_i hw
      exact derives_of_definition hw htail hread
    split at hread
    · rename_i hw
      exact derives_of_binding hw htail hread
    split at hread
    · rename_i hw
      obtain ⟨⟨x, rest₁⟩, hname, heq⟩ := bind_eq_ok.mp hread
      cases heq
      obtain ⟨rfl, hx⟩ := expect_eq_ok.mp hname
      exact ⟨[w, x], rfl, .exportVar hw hx⟩
    · cases hread

/-! ## The end of the text -/

/-- No token of an expression is the end of the text. -/
theorem Derives.kind_ne_eof {ph : Phrase} (h : Derives ph toks) : ∀ t ∈ toks, t.kind ≠ .eof := by
  induction h with
  | operand _ _ ih | base _ ih | plain _ ih | single _ ih | nonempty _ ih => exact ih
  | empty => simp
  | fromLeft _ _ ht _ _ ihl ihr | fromRight ht _ _ ihl ihr =>
    have := ht.kind_eq
    grind
  | signed hm ht =>
    have := hm.kind_eq
    grind
  | applied ht _ _ ih =>
    have := ht.kind_eq
    grind
  | numeral | named | call | fold | array | group | more => grind [IsFree]

theorem DerivesNames.kind_ne_eof {names : List String} (h : DerivesNames names toks) :
    ∀ t ∈ toks, t.kind ≠ .eof := by
  induction h with
  | single ht => simp [ht]
  | more ht hcomma _ ih => grind

theorem DerivesStmt.kind_ne_eof {s : Stmt} (h : DerivesStmt s toks) : ∀ t ∈ toks, t.kind ≠ .eof := by
  cases h with
  | importVar hw hx | exportVar hw hx => simp [hw.1, hx]
  | letVar hw hx hq he =>
    have := he.kind_ne_eof
    grind [IsStatementWord]
  | define hw hf ho hps hc hq hbody =>
    have := hbody.kind_ne_eof
    rcases hps with ⟨-, rfl⟩ | hps
    · grind [IsStatementWord]
    · have := hps.kind_ne_eof
      grind [IsStatementWord]

/-- What lies behind a token before the end of the text. -/
theorem exists_body {body used : List Token} {stop c : Token} (h : body ++ [stop] = used ++ c :: rest)
    (hc : c.kind ≠ stop.kind) : ∃ body', rest = body' ++ [stop] ∧ body = used ++ c :: body' := by
  rcases List.eq_nil_or_concat rest with rfl | ⟨body', u, rfl⟩
  · have hlast := (List.append_inj' h rfl).2
    rw [(List.cons.inj hlast).1] at hc
    exact absurd rfl hc
  · rw [List.concat_eq_append, ← List.cons_append, ← List.append_assoc] at h
    obtain ⟨hbody, hlast⟩ := List.append_inj' h rfl
    rw [(List.cons.inj hlast).1]
    exact ⟨body', List.concat_eq_append, hbody⟩

/-- What lies before the first token that is the end of the text. -/
theorem eq_body {body used : List Token} {stop : Token} (h : body ++ [stop] = used ++ rest)
    (hbody : ∀ t ∈ body, t.kind ≠ .eof) (hused : ∀ t ∈ used, t.kind ≠ .eof) (hstop : stop.kind = .eof)
    (hrest : (peek rest).kind = .eof) : used = body := by
  cases rest with
  | nil =>
    rw [List.append_nil] at h
    exact absurd hstop (hused stop (h ▸ by simp))
  | cons c rest =>
    rcases List.eq_nil_or_concat rest with rfl | ⟨body', u, rfl⟩
    · exact (List.append_inj' h rfl).1.symm
    · rw [List.concat_eq_append, ← List.cons_append, ← List.append_assoc] at h
      have hc := hbody c ((List.append_inj' h rfl).1 ▸ by simp)
      exact absurd hrest hc

/-- **Statements that are read are derived**, up to the end of the text. -/
theorem derives_of_statements {p : Program} {body : List Token} {stop : Token}
    (hbody : ∀ t ∈ body, Scanned t) (hstop : stop.kind = .eof)
    (hread : Parser.statements n (body ++ [stop]) = .ok p) : DerivesStmts p body := by
  induction n generalizing body p with
  | zero => cases hread
  | succ n ih =>
    have hgenuine : ∀ t ∈ body ++ [stop], Genuine t := by
      intro t ht
      rcases List.mem_append.mp ht with ht | ht
      · exact Or.inl (hbody t ht)
      · exact Or.inr (List.mem_singleton.mp ht ▸ hstop)
    rw [Parser.statements] at hread
    split at hread
    · rename_i hend
      cases hread
      cases body with
      | nil => exact .empty
      | cons t body => exact absurd hend (hbody t List.mem_cons_self).kind_ne_eof
    · obtain ⟨⟨s, rest⟩, hs, hmore⟩ := bind_eq_ok.mp hread
      obtain ⟨used, hused, hstmt⟩ := derives_of_statement hgenuine hs
      change (if _ then _ else _) = _ at hmore
      split at hmore
      · rename_i hsemi
        obtain ⟨more, hothers, heq⟩ := bind_eq_ok.mp hmore
        cases heq
        cases rest with
        | nil => cases hsemi
        | cons c rest =>
          -- a semicolon is not the end, so the tokens behind it still have `stop` as their last
          obtain ⟨body', rfl, rfl⟩ := exists_body hused (by simp [peek_cons c rest ▸ hsemi, hstop])
          exact .more hstmt hsemi (ih (fun t ht => hbody t (by simp [ht])) hothers)
      · split at hmore
        · rename_i hend
          cases hmore
          have hbody := fun t ht => (hbody t ht).kind_ne_eof
          rw [← eq_body hused hbody hstmt.kind_ne_eof hstop hend]
          exact .last hstmt
        · cases hmore

end Straightline.Source
