import Straightline.Target.Expr

/-!
# Target text

Expressions are printed with the fewest parentheses.  An operand is put in parentheses if it binds
more weakly than its operator, or equally where the reading order would regroup it; the right operand
of an associative operator may be a row of that same operator.  A negative literal counts as a
negation, and two minus signs in a row are kept apart by a blank.
-/

namespace Straightline.Target

namespace Printer

/-- The strength of a name or an unsigned literal, which are never put in parentheses. -/
def atomStrength : Nat := 1000

/-- A text in parentheses. -/
def parenthesized (cs : List Char) : List Char := '(' :: cs ++ [')']

/-- Whether a text begins with a minus sign. -/
def startsWithMinus (cs : List Char) : Bool := cs.head? == some '-'

/-- The text of a prefix operator before an operand of a given text and strength. -/
def unaryText (op : PrefixOp) (operand : List Char × Nat) : List Char :=
  if operand.2 < op.strength then op.token.toList ++ parenthesized operand.1
  else if op.isWord || startsWithMinus operand.1 then op.token.toList ++ ' ' :: operand.1
  else op.token.toList ++ operand.1

/-- Whether the left operand of `op`, of a given strength, needs parentheses. -/
def wrapsLeft (op : InfixOp) (strength : Nat) : Bool :=
  strength < op.strength || (strength == op.strength && op.isRightAssociative)

/-- Whether the right operand of `op`, of a given strength, needs parentheses; `same` tells whether it
is itself an application of `op`. -/
def wrapsRight (op : InfixOp) (strength : Nat) (same : Bool) : Bool :=
  strength < op.strength ||
    (strength == op.strength && !op.isRightAssociative && !(op.isAssociative && same))

/-- The text of an infix operator between two finished operands. -/
def binaryText (lhs : List Char) (op : InfixOp) (rhs : List Char) : List Char :=
  if op.isWord then lhs ++ ' ' :: op.token.toList ++ ' ' :: rhs
  else if op = .sub && startsWithMinus rhs then lhs ++ '-' :: ' ' :: rhs
  else lhs ++ op.token.toList ++ rhs

end Printer

open Printer

/-- Whether the expression is an application of `op`. -/
def Expr.isBinary (op : InfixOp) : Expr → Bool
  | binary _ o _ => decide (o = op)
  | _ => false

/-- **The text of an expression**, and the strength of its outermost operator. -/
def Expr.print : Expr → Except Misplaced (List Char × Nat)
  | ident name => .ok (name.toList, atomStrength)
  | literal n =>
    .ok (n.toChars, if startsWithMinus n.toChars then PrefixOp.neg.strength else atomStrength)
  | unary op operand => do
    let p ← operand.print
    return (unaryText op p, op.strength)
  | binary lhs op rhs => do
    let l ← lhs.print
    let r ← rhs.print
    let left := if wrapsLeft op l.2 then parenthesized l.1 else l.1
    let right := if wrapsRight op r.2 (rhs.isBinary op) then parenthesized r.1 else r.1
    return (binaryText left op right, op.strength)
  | stray _ => .error .targetExpr

/-- **The text of a statement.** -/
def Stmt.print : Stmt → Except Misplaced (List Char)
  | assign target expr => do
    let p ← expr.print
    return target.toList ++ '=' :: p.1
  | stray _ => .error .targetStmt

end Straightline.Target
