import Straightline.Proofs.Scanning
import Straightline.Source.Parser

/-!
# The grammar of source programs

The grammar says which rows of tokens make up a program, and which tree they stand for.  It is given by
rules and owes nothing to the way in which programs are read.

Infix operators come in seven tiers.  An expression of a tier is a row of operands parted by operators
of that tier, and the operands are of the next tier: all tiers but the last are read from the left, and
`^`, the last one, from the right.  Below the tiers are the prefix operators and then the primary
expressions: numerals, variables, calls, arrays and expressions in parentheses.  A minus sign directly
before a numeral is no operator but belongs to the numeral.

The words of operators and statements are tokens of the same kind as names.  They can be told from a
variable only by their text, and nothing keeps them from being bound, imported or exported.
-/

namespace Straightline.Source

/-! ## Tiers -/

/-- **The tiers of the infix operators**, the weakest first. -/
inductive Tier where
  | disjunction
  | conjunction
  | equality
  | order
  | sum
  | product
  | power
  deriving DecidableEq, Repr

namespace Tier

/-- The operators of a tier. -/
def operators : Tier → List InfixOp
  | disjunction => [.or]
  | conjunction => [.and]
  | equality => [.eq, .ne]
  | order => [.lt, .le, .gt, .ge]
  | sum => [.add, .sub]
  | product => [.mul, .div, .mod]
  | power => [.pow]

/-- The tier of the operands, for the tiers that are read from the left. -/
def operands? : Tier → Option Tier
  | disjunction => some conjunction
  | conjunction => some equality
  | equality => some order
  | order => some sum
  | sum => some product
  | product => some power
  | power => none

/-- How far up a tier is. -/
def height : Tier → Nat
  | disjunction => 1
  | conjunction => 2
  | equality => 3
  | order => 4
  | sum => 5
  | product => 6
  | power => 7

theorem eq_of_height {k k' : Tier} (h : k.height = k'.height) : k = k' := by
  revert h
  cases k <;> cases k' <;> decide

theorem height_pos (k : Tier) : 0 < k.height := by
  cases k <;> decide

theorem height_le (k : Tier) : k.height ≤ power.height := by
  cases k <;> decide

theorem operands?_height {k k' : Tier} (h : k.operands? = some k') : k'.height = k.height + 1 := by
  revert h
  cases k <;> cases k' <;> decide

theorem exists_operands? {k : Tier} (h : k ≠ power) : ∃ k', k.operands? = some k' := by
  cases k with
  | power => exact absurd rfl h
  | _ => exact ⟨_, rfl⟩

/-- The tier of an operator. -/
def of : InfixOp → Tier
  | .or => disjunction
  | .and => conjunction
  | .eq | .ne => equality
  | .lt | .le | .gt | .ge => order
  | .add | .sub => sum
  | .mul | .div | .mod => product
  | .pow => power

theorem height_of (op : InfixOp) : (of op).height = op.sourceStrength := by
  cases op <;> rfl

theorem mem_operators_of (op : InfixOp) : op ∈ (of op).operators := by
  cases op <;> decide

theorem sourceStrength_of_mem {k : Tier} {op : InfixOp} (h : op ∈ k.operators) :
    op.sourceStrength = k.height := by
  revert h
  cases k <;> cases op <;> decide

end Tier

/-! ## Tokens -/

/-- The words among the operators. -/
def operatorWords : List String :=
  ["not", "abs", "sqrt", "sin", "cos", "tan", "asin", "acos", "atan", "and", "or"]

/-- The token that an infix operator is written as. -/
def IsInfix (op : InfixOp) (t : Token) : Prop :=
  t.kind = (if op.isWord then .ident else .op) ∧ t.text = op.token

/-- The token that a prefix operator is written as. -/
def IsPrefix (op : PrefixOp) (t : Token) : Prop :=
  t.kind = (if op.isWord then .ident else .op) ∧ t.text = op.token

theorem IsInfix.kind_eq {op : InfixOp} {t : Token} (h : IsInfix op t) : t.kind = .ident ∨ t.kind = .op := by
  rw [h.1]
  cases op.isWord with
  | true => exact Or.inl rfl
  | false => exact Or.inr rfl

theorem IsPrefix.kind_eq {op : PrefixOp} {t : Token} (h : IsPrefix op t) :
    t.kind = .ident ∨ t.kind = .op := by
  rw [h.1]
  cases op.isWord with
  | true => exact Or.inl rfl
  | false => exact Or.inr rfl

/-- A token that can stand for a variable or a function in an expression. -/
def IsFree (t : Token) : Prop :=
  t.kind = .ident ∧ t.text ∉ operatorWords ∧ t.text ∉ statementWords

/-- A row of tokens that begins with a numeral. -/
def BeginsWithNumeral (toks : List Token) : Prop := ∃ t rest, toks = t :: rest ∧ t.kind = .number

/-! ## Expressions -/

/-- **The parts of an expression** that tokens are derived for. -/
inductive Phrase where
  /-- An expression of a tier, or of one further up. -/
  | tier (k : Tier) (e : Expr)
  /-- A primary expression under prefix operators. -/
  | unary (e : Expr)
  | primary (e : Expr)
  /-- One or more expressions parted by commas. -/
  | row (es : List Expr)
  /-- Any number of expressions parted by commas. -/
  | arguments (es : List Expr)

/-- **The rows of tokens that an expression is written as.** -/
inductive Derives : Phrase → List Token → Prop
  /-- An expression of the tier of the operands is one of the tier itself. -/
  | operand {k k' : Tier} {e : Expr} {toks : List Token} (tier : k.operands? = some k')
      (h : Derives (.tier k' e) toks) : Derives (.tier k e) toks
  | fromLeft {k k' : Tier} {l r : Expr} {op : InfixOp} {t : Token} {ls rs : List Token}
      (tier : k.operands? = some k') (operator : op ∈ k.operators) (token : IsInfix op t)
      (left : Derives (.tier k l) ls) (right : Derives (.tier k' r) rs) :
      Derives (.tier k (.binary l op r)) (ls ++ t :: rs)
  | base {e : Expr} {toks : List Token} (h : Derives (.unary e) toks) : Derives (.tier .power e) toks
  | fromRight {l r : Expr} {t : Token} {ls rs : List Token} (token : IsInfix .pow t)
      (left : Derives (.unary l) ls) (right : Derives (.tier .power r) rs) :
      Derives (.tier .power (.binary l .pow r)) (ls ++ t :: rs)
  /-- A numeral behind a minus sign is a literal; the sign is read with the digits. -/
  | signed {m t : Token} {u v : Number} (minus : IsPrefix .neg m) (numeral : t.kind = .number)
      (unsigned : Number.ofText t.text = .ok u) (value : Number.ofText ("-" ++ t.text) = .ok v) :
      Derives (.unary (.literal v)) [m, t]
  | applied {op : PrefixOp} {e : Expr} {t : Token} {toks : List Token} (token : IsPrefix op t)
      (sign : op = .neg → ¬ BeginsWithNumeral toks) (h : Derives (.unary e) toks) :
      Derives (.unary (.unary op e)) (t :: toks)
  | plain {e : Expr} {toks : List Token} (h : Derives (.primary e) toks) : Derives (.unary e) toks
  | numeral {t : Token} {v : Number} (numeral : t.kind = .number)
      (value : Number.ofText t.text = .ok v) : Derives (.primary (.literal v)) [t]
  | named {t : Token} (free : IsFree t) : Derives (.primary (.ident t.text)) [t]
  | call {f o c : Token} {es : List Expr} {toks : List Token} (free : IsFree f)
      (function : FoldOp.ofName? f.text = none) (opens : o.kind = .lparen)
      (args : Derives (.arguments es) toks) (closes : c.kind = .rparen) :
      Derives (.primary (.call f.text es)) (f :: o :: (toks ++ [c]))
  | fold {f o c : Token} {fold : FoldOp} {es : List Expr} {toks : List Token} (kind : f.kind = .ident)
      (name : f.text = fold.name) (opens : o.kind = .lparen) (args : Derives (.arguments es) toks)
      (closes : c.kind = .rparen) : Derives (.primary (.fold fold.op es)) (f :: o :: (toks ++ [c]))
  | array {o c : Token} {es : List Expr} {toks : List Token} (opens : o.kind = .lbracket)
      (items : Derives (.arguments es) toks) (closes : c.kind = .rbracket) :
      Derives (.primary (.array es)) (o :: (toks ++ [c]))
  | group {o c : Token} {e : Expr} {toks : List Token} (opens : o.kind = .lparen)
      (h : Derives (.tier .disjunction e) toks) (closes : c.kind = .rparen) :
      Derives (.primary e) (o :: (toks ++ [c]))
  | single {e : Expr} {toks : List Token} (h : Derives (.tier .disjunction e) toks) :
      Derives (.row [e]) toks
  | more {e : Expr} {es : List Expr} {c : Token} {toks rest : List Token}
      (h : Derives (.tier .disjunction e) toks) (comma : c.kind = .comma)
      (others : Derives (.row es) rest) : Derives (.row (e :: es)) (toks ++ c :: rest)
  | empty : Derives (.arguments []) []
  | nonempty {es : List Expr} {toks : List Token} (h : Derives (.row es) toks) :
      Derives (.arguments es) toks

variable {k k' : Tier} {e l r : Expr} {op : InfixOp} {t : Token} {toks ls rs : List Token}

/-- An expression of a tier is one of every tier further down. -/
theorem Derives.lower (h : Derives (.tier k' e) toks) (hle : k.height ≤ k'.height) :
    Derives (.tier k e) toks := by
  obtain ⟨n, hn⟩ := Nat.exists_eq_add_of_le hle
  induction n generalizing k with
  | zero =>
    rw [Tier.eq_of_height hn.symm]
    exact h
  | succ n ih =>
    have hne : k ≠ .power := by
      rintro rfl
      have := k'.height_le
      omega
    obtain ⟨k₁, hk₁⟩ := Tier.exists_operands? hne
    have hheight := Tier.operands?_height hk₁
    exact .operand hk₁ (ih (by omega) (by omega))

theorem Derives.of_unary (h : Derives (.unary e) toks) (k : Tier) : Derives (.tier k e) toks :=
  (Derives.base h).lower k.height_le

/-- The tokens of an expression that can stand to the left of an operator. -/
def DerivesLeft (op : InfixOp) (e : Expr) (toks : List Token) : Prop :=
  if op = .pow then Derives (.unary e) toks else Derives (.tier (.of op) e) toks

theorem Derives.left (h : Derives (.unary e) toks) (op : InfixOp) : DerivesLeft op e toks := by
  unfold DerivesLeft
  split
  · exact h
  · exact h.of_unary _

/-- An operator between two operands, whichever side it is read from. -/
theorem Derives.binary (ht : IsInfix op t) (hl : DerivesLeft op l ls)
    (hr : ∀ k, k.height ≤ Grammar.rightStrength dialect op → Derives (.tier k r) rs) :
    Derives (.tier (.of op) (.binary l op r)) (ls ++ t :: rs) := by
  unfold DerivesLeft at hl
  by_cases hpow : op = .pow
  · subst hpow
    rw [if_pos rfl] at hl
    exact .fromRight ht hl (hr .power (by decide))
  · rw [if_neg hpow] at hl
    have hne : Tier.of op ≠ .power := by
      revert hpow
      cases op <;> decide
    obtain ⟨k', hk'⟩ := Tier.exists_operands? hne
    have hheight : k'.height ≤ Grammar.rightStrength dialect op := by
      rw [Tier.operands?_height hk', Tier.height_of]
      revert hpow
      cases op <;> decide
    exact .fromLeft hk' (Tier.mem_operators_of op) ht hl (hr k' hheight)

/-! ## Programs -/

/-- One or more names parted by commas. -/
inductive DerivesNames : List String → List Token → Prop
  | single {t : Token} (name : t.kind = .ident) : DerivesNames [t.text] [t]
  | more {t c : Token} {names : List String} {rest : List Token} (name : t.kind = .ident)
      (comma : c.kind = .comma) (others : DerivesNames names rest) :
      DerivesNames (t.text :: names) (t :: c :: rest)

/-- The parameters of a definition, if it has any. -/
def DerivesParams (names : List String) (toks : List Token) : Prop :=
  names = [] ∧ toks = [] ∨ DerivesNames names toks

/-- The word that a statement begins with. -/
def IsStatementWord (word : String) (t : Token) : Prop := t.kind = .ident ∧ t.text = word

/-- **The rows of tokens that a statement is written as.** -/
inductive DerivesStmt : Stmt → List Token → Prop
  | importVar {w x : Token} (word : IsStatementWord "import" w) (name : x.kind = .ident) :
      DerivesStmt (.importVar x.text) [w, x]
  | define {w f o c q : Token} {names : List String} {body : Expr} {ps toks : List Token}
      (word : IsStatementWord "define" w) (name : f.kind = .ident) (opens : o.kind = .lparen)
      (params : DerivesParams names ps) (closes : c.kind = .rparen) (equals : q.kind = .assign)
      (expr : Derives (.tier .disjunction body) toks) :
      DerivesStmt (.define f.text names body) (w :: f :: o :: (ps ++ c :: q :: toks))
  | letVar {w x q : Token} {e : Expr} {toks : List Token} (word : IsStatementWord "let" w)
      (name : x.kind = .ident) (equals : q.kind = .assign)
      (expr : Derives (.tier .disjunction e) toks) :
      DerivesStmt (.letVar x.text e) (w :: x :: q :: toks)
  | exportVar {w x : Token} (word : IsStatementWord "export" w) (name : x.kind = .ident) :
      DerivesStmt (.exportVar x.text) [w, x]

/-- The rows of tokens that statements parted by semicolons are written as.  A semicolon may stand
behind the last one. -/
inductive DerivesStmts : Program → List Token → Prop
  | empty : DerivesStmts [] []
  | last {s : Stmt} {toks : List Token} (h : DerivesStmt s toks) : DerivesStmts [s] toks
  | more {s : Stmt} {p : Program} {c : Token} {toks rest : List Token} (h : DerivesStmt s toks)
      (semicolon : c.kind = .semi) (others : DerivesStmts p rest) :
      DerivesStmts (s :: p) (toks ++ c :: rest)

/-- **The rows of tokens that a program is written as**, up to the end of its text. -/
def DerivesProgram (p : Program) (toks : List Token) : Prop :=
  ∃ body stop, toks = body ++ [stop] ∧ stop.kind = .eof ∧ DerivesStmts p body

end Straightline.Source
