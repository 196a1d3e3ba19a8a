import Straightline.Operator
import Straightline.Stray

/-!
# The target language

A target program is a straight line of assignments.  There is one kind of value, the number, and a
variable that was never assigned reads as zero.
-/

namespace Straightline.Target

/-- **An expression of the target language.** -/
inductive Expr where
  | literal (n : Number)
  | ident (name : String)
  | unary (op : PrefixOp) (operand : Expr)
  | binary (lhs : Expr) (op : InfixOp) (rhs : Expr)
  /-- A node that is no expression of the target language. -/
  | stray (node : Stray)
  deriving DecidableEq

/-- **A statement of the target language.** -/
inductive Stmt where
  /-- `target` receives the value of `expr`. -/
  | assign (target : String) (expr : Expr)
  /-- A node that is no statement of the target language. -/
  | stray (node : Stray)
  deriving DecidableEq

end Straightline.Target
