import Straightline.Table
import Straightline.Target.Expr
import Straightline.Text.Casing

/-!
# Running target programs

A store holds the variables of a running program.  Names are not told apart by case, and a variable
that was never set reads as zero.  A program runs up to the first assignment that has no value; what
was assigned before it stays.
-/

namespace Straightline.Target

/-- **The variables of a running program**, under their lower-case names. -/
structure Store where
  cells : Table Number := []
  deriving DecidableEq

/-- Why an expression has no value. -/
inductive EvalError where
  | number (fault : Number.Fault)
  | misplaced (wanted : Misplaced)
  deriving DecidableEq, Repr

/-- The wording of an evaluation error. -/
def EvalError.message : EvalError → String
  | .number fault => fault.message
  | .misplaced wanted => wanted.message

/-- Why a program stops. -/
inductive RunError where
  /-- An operation in the assignment to `target` was given operands outside its domain. -/
  | operands (target : String) (fault : Number.Fault)
  /-- Any other reason that an expression has no value. -/
  | eval (error : EvalError)
  deriving DecidableEq, Repr

/-- The wording of a run error. -/
def RunError.message : RunError → String
  | .operands target fault => s!"{target}: {fault.message}"
  | .eval error => error.message

/-- The error that an evaluation error becomes in an assignment to `target`. -/
def EvalError.inAssignment (target : String) : EvalError → RunError
  | .number fault => if fault.isOfOperands then .operands target fault else .eval (.number fault)
  | .misplaced wanted => .eval (.misplaced wanted)

namespace Store

/-- The value of a variable. -/
def get (s : Store) (name : String) : Number := (s.cells.get? (Text.lower name)).getD .zero

/-- Sets a variable. -/
def set (s : Store) (name : String) (value : Number) : Store :=
  ⟨s.cells.set (Text.lower name) value⟩

variable [Elementary]

/-- **The value of an expression.** -/
def eval (s : Store) : Expr → Except EvalError Number
  | .literal n => .ok n
  | .ident x => .ok (s.get x)
  | .unary op e => do
    let a ← s.eval e
    (op.apply a).mapError .number
  | .binary l op r => do
    let a ← s.eval l
    let b ← s.eval r
    (op.apply a b).mapError .number
  | .stray _ => .error (.misplaced .targetExpr)

/-- **Runs a program.** -/
def run (s : Store) : List Stmt → EStateM.Result RunError Store Unit
  | [] => .ok () s
  | .assign x e :: rest =>
    match s.eval e with
    | .ok v => (s.set x v).run rest
    | .error error => .error (error.inAssignment x) s
  | .stray _ :: _ => .error (.eval (.misplaced .targetExpr)) s

end Store

end Straightline.Target
