import Straightline.Number.Elementary

/-!
# Operators

Both languages share their operators.  In the target language each has a *strength*: the operator of
greater strength binds tighter.  The source language orders the infix operators differently
(`InfixOp.sourceStrength`); there every prefix operator binds tighter than every infix one.
-/

namespace Straightline

/-- The operators that stand before their operand. -/
inductive PrefixOp where
  | neg
  | not
  | abs
  | sqrt
  | sin
  | cos
  | tan
  | asin
  | acos
  | atan
  deriving DecidableEq, Repr

/-- The operators that stand between their operands. -/
inductive InfixOp where
  | add
  | sub
  | mul
  | div
  | mod
  | pow
  | lt
  | le
  | gt
  | ge
  | eq
  | ne
  | and
  | or
  deriving DecidableEq, Repr

namespace PrefixOp

/-- The prefix operators in their customary order. -/
def all : List PrefixOp := [.neg, .not, .abs, .sqrt, .sin, .cos, .tan, .asin, .acos, .atan]

/-- How the operator is written. -/
def token : PrefixOp → String
  | neg => "-"
  | not => "not"
  | abs => "abs"
  | sqrt => "sqrt"
  | sin => "sin"
  | cos => "cos"
  | tan => "tan"
  | asin => "asin"
  | acos => "acos"
  | atan => "atan"

/-- The operator with a given spelling. -/
def ofToken? (s : String) : Option PrefixOp := all.find? fun op => op.token = s

/-- Whether the operator is a word, which has to be kept apart from a name that follows it. -/
def isWord (op : PrefixOp) : Bool := decide (op ≠ .neg)

/-- How tightly the operator binds in the target language. -/
def strength (op : PrefixOp) : Nat := if op = .neg then 100 else 90

/-- **The value of the operator** at a number. -/
def apply [Elementary] : PrefixOp → Number → Except Number.Fault Number
  | neg, a => .ok a.neg
  | not, a => .ok (.ofBool !a.isTrue)
  | abs, a => .ok a.abs
  | sqrt, a => a.sqrt
  | sin, a => a.sin
  | cos, a => a.cos
  | tan, a => a.tan
  | asin, a => a.asin
  | acos, a => a.acos
  | atan, a => a.atan

end PrefixOp

namespace InfixOp

/-- The infix operators in their customary order. -/
def all : List InfixOp :=
  [.add, .sub, .mul, .div, .mod, .pow, .lt, .le, .gt, .ge, .eq, .ne, .and, .or]

/-- How the operator is written. -/
def token : InfixOp → String
  | add => "+"
  | sub => "-"
  | mul => "*"
  | div => "/"
  | mod => "%"
  | pow => "^"
  | lt => "<"
  | le => "<="
  | gt => ">"
  | ge => ">="
  | eq => "=="
  | ne => "!="
  | and => "and"
  | or => "or"

/-- The operator with a given spelling. -/
def ofToken? (s : String) : Option InfixOp := all.find? fun op => op.token = s

/-- Whether the operator is a word. -/
def isWord (op : InfixOp) : Bool := decide (op = .and ∨ op = .or)

/-- How tightly the operator binds in the target language. -/
def strength : InfixOp → Nat
  | pow => 80
  | mul | div | mod => 70
  | add | sub => 60
  | lt | le | gt | ge => 50
  | eq | ne => 40
  | or => 30
  | and => 20

/-- How tightly the operator binds in the source language. -/
def sourceStrength : InfixOp → Nat
  | or => 1
  | and => 2
  | eq | ne => 3
  | lt | le | gt | ge => 4
  | add | sub => 5
  | mul | div | mod => 6
  | pow => 7

/-- Whether `a op (b op c)` is written without its parentheses, and so read as `(a op b) op c`.  For `and`
and `or` the two always agree; for sums they do as long as none of them saturates.  Products are left
out, since each one is truncated. -/
def isAssociative (op : InfixOp) : Bool := decide (op = .add ∨ op = .and ∨ op = .or)

/-- Whether a row of the operator is read from the right. -/
def isRightAssociative (op : InfixOp) : Bool := decide (op = .pow)

/-- **The value of the operator** at two numbers. -/
def apply [Elementary] : InfixOp → Number → Number → Except Number.Fault Number
  | add, a, b => .ok (a.add b)
  | sub, a, b => .ok (a.sub b)
  | mul, a, b => .ok (a.mul b)
  | div, a, b => a.div b
  | mod, a, b => a.mod b
  | pow, a, b => a.pow b
  | lt, a, b => .ok (.ofBool (decide (a.raw < b.raw)))
  | le, a, b => .ok (.ofBool (decide (a.raw ≤ b.raw)))
  | gt, a, b => .ok (.ofBool (decide (b.raw < a.raw)))
  | ge, a, b => .ok (.ofBool (decide (b.raw ≤ a.raw)))
  | eq, a, b => .ok (.ofBool (decide (a.raw = b.raw)))
  | ne, a, b => .ok (.ofBool (decide (a.raw ≠ b.raw)))
  | and, a, b => .ok (.ofBool (a.isTrue && b.isTrue))
  | or, a, b => .ok (.ofBool (a.isTrue || b.isTrue))

end InfixOp

/-- **The built-in reductions** over the scalars of their arguments. -/
inductive FoldOp where
  | sum
  | product
  deriving DecidableEq, Repr

namespace FoldOp

/-- The name a reduction is called by. -/
def name : FoldOp → String
  | sum => "sum"
  | product => "product"

/-- The reduction with a given name. -/
def ofName? (s : String) : Option FoldOp :=
  if s = "sum" then some .sum else if s = "product" then some .product else none

/-- The operator that joins two scalars. -/
def op : FoldOp → InfixOp
  | sum => .add
  | product => .mul

/-- The reduction that joins scalars by a given operator. -/
def ofOp? : InfixOp → Option FoldOp
  | .add => some .sum
  | .mul => some .product
  | _ => none

@[simp] theorem ofOp?_op (fold : FoldOp) : ofOp? fold.op = some fold := by
  cases fold <;> rfl

/-- What the reduction of nothing yields. -/
def start : FoldOp → Number
  | sum => .zero
  | product => .one

end FoldOp

/-- The words a program may not use as names: those of its statements, its operators and reductions,
and those that the target language reserves. -/
def keywords : List String :=
  ["import", "define", "let", "export"]
    ++ ["not", "abs", "sqrt", "sin", "cos", "tan", "asin", "acos", "atan", "and", "or"]
    ++ ["sum", "product"]
    ++ ["if", "then", "else", "end", "goto"]

end Straightline
