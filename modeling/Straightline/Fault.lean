import Straightline.Source.Printer
import Straightline.Value

/-!
# Why a statement is refused

Each cause names the identifiers it is about.  The message of a refused statement also quotes the
statement; what is wrong with the form of a tree is reported without it.
-/

namespace Straightline

/-- **Why a statement is refused.** -/
inductive Fault where
  | importTwice (name : String)
  | importExisting (name : String)
  | importKeyword (name : String)
  | defineExisting (name : String)
  | defineKeyword (name : String)
  | assignExisting (name : String)
  | assignKeyword (name : String)
  /-- The name differs from a name in use only by case. -/
  | assignConflict (name existing : String)
  | undefinedVariable (name : String)
  | undefinedFunction (name : String)
  | exportTwice (name : String)
  | duplicateParam (function param : String)
  | undefinedLocal (function name : String)
  | recursiveCall (function : String)
  | wrongNumberOfArgs (function : String) (expected got : Nat)
  | mismatchedArrays (mismatch : Mismatch)
  | nestedArrays
  | misplaced (wanted : Misplaced)
  /-- There is no reduction by the operator. -/
  | noReduction (op : InfixOp)
  /-- The bound on the nesting of inlined calls is used up. -/
  | endlessCall (function : String)
  deriving DecidableEq, Repr

/-- The wording of a fault. -/
def Fault.message : Fault → String
  | .importTwice x => s!"cannot import variable twice: {x}"
  | .importExisting x => s!"cannot import existing variable: {x}"
  | .importKeyword x => s!"cannot import keyword: {x}"
  | .defineExisting f => s!"cannot define existing function: {f}"
  | .defineKeyword f => s!"cannot define keyword: {f}"
  | .assignExisting x => s!"cannot assign to existing variable: {x}"
  | .assignKeyword x => s!"cannot assign to keyword: {x}"
  | .assignConflict x y =>
    s!"name conflicts with '{y}' (identifiers are case-insensitive): {x}"
  | .undefinedVariable x => s!"undefined variable: {x}"
  | .undefinedFunction f => s!"undefined function: {f}"
  | .exportTwice x => s!"cannot export variable twice: {x}"
  | .duplicateParam f p => s!"duplicate parameter '{p}' in function: {f}"
  | .undefinedLocal f x => s!"undefined local '{x}' in function: {f}"
  | .recursiveCall f => s!"recursive call in function: {f}"
  | .wrongNumberOfArgs f m n => s!"expected {m} argument(s) but got {n} for function: {f}"
  | .mismatchedArrays m =>
    s!"mismatched array lengths for '{m.op.token}': {m.left} and {m.right}"
  | .nestedArrays => "cannot nest arrays"
  | .misplaced wanted => wanted.message
  | .noReduction _ => ""
  | .endlessCall f => s!"endless call of function: {f}"

/-- Whether the fault lies in the form of a tree and not in what it says. -/
def Fault.isMalformed : Fault → Bool
  | .misplaced _ | .noReduction _ => true
  | _ => false

/-- **A refused statement**, with the cause. -/
structure Refusal where
  fault : Fault
  stmt : Source.Stmt
  deriving DecidableEq

/-- The wording of a refusal.  There is none if the statement has no text to quote. -/
def Refusal.message? (r : Refusal) : Option String :=
  if r.fault.isMalformed then some r.fault.message
  else r.stmt.toText?.map fun text => s!"{r.fault.message}\n  in statement: {text}"

end Straightline
