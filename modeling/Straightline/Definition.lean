import Straightline.Fault
import Straightline.Table

/-!
# Functions

A function is defined by its parameters and a body in which nothing but they may be read.  Calling it
means putting the arguments in the place of the parameters (`Definition.instantiate`).
-/

namespace Straightline

/-- **A function definition.** -/
structure Definition where
  name : String
  params : List String
  body : Source.Expr
  deriving DecidableEq

namespace Definition

/-! ## Checks -/

/-- The first parameter that has occurred before. -/
def duplicate? (seen : List String) : List String → Option String
  | [] => none
  | p :: rest => if p ∈ seen then some p else duplicate? (p :: seen) rest

mutual

/-- Checks that an expression reads only parameters and does not call the function itself. -/
def checkBody (name : String) (params : List String) : Source.Expr → Except Fault Unit
  | .literal _ => .ok ()
  | .ident x => if x ∈ params then .ok () else .error (.undefinedLocal name x)
  | .unary _ e => checkBody name params e
  | .binary l _ r => do
    checkBody name params l
    checkBody name params r
  | .call f args => if f = name then .error (.recursiveCall name) else checkAll name params args
  | .fold _ args => checkAll name params args
  | .array items => checkAll name params items
  | .stray _ => .error (.misplaced .sourceExpr)

/-- Checks several expressions in order. -/
def checkAll (name : String) (params : List String) : List Source.Expr → Except Fault Unit
  | [] => .ok ()
  | e :: es => do
    checkBody name params e
    checkAll name params es

end

/-- **Defines a function**, if its parameters are distinct and its body is well scoped. -/
def define (name : String) (params : List String) (body : Source.Expr) :
    Except Fault Definition :=
  match duplicate? [] params with
  | some p => .error (.duplicateParam name p)
  | none => (checkBody name params body).map fun _ => ⟨name, params, body⟩

/-! ## Calls -/

mutual

/-- The functions that an expression calls, in order. -/
def calls : Source.Expr → List String
  | .unary _ e => calls e
  | .binary l _ r => calls l ++ calls r
  | .call f args => f :: callsAll args
  | .fold _ args => callsAll args
  | .array items => callsAll items
  | _ => []

/-- The functions that some expressions call. -/
def callsAll : List Source.Expr → List String
  | [] => []
  | e :: es => calls e ++ callsAll es

end

/-- **The functions that the body calls directly.** -/
def callees (f : Definition) : List String := (calls f.body).eraseDups

mutual

/-- Puts expressions in the place of variables. -/
def substitute (bindings : Table Source.Expr) : Source.Expr → Source.Expr
  | .ident x => (bindings.get? x).getD (.ident x)
  | .unary op e => .unary op (substitute bindings e)
  | .binary l op r => .binary (substitute bindings l) op (substitute bindings r)
  | .call f args => .call f (substituteAll bindings args)
  | .fold op args => .fold op (substituteAll bindings args)
  | .array items => .array (substituteAll bindings items)
  | e => e

/-- Puts expressions in the place of variables, in several expressions. -/
def substituteAll (bindings : Table Source.Expr) : List Source.Expr → List Source.Expr
  | [] => []
  | e :: es => substitute bindings e :: substituteAll bindings es

end

/-- **The body with the arguments in the place of the parameters.** -/
def instantiate (f : Definition) (args : List Source.Expr) : Except Fault Source.Expr :=
  if args.length = f.params.length then .ok (substitute (f.params.zip args) f.body)
  else .error (.wrongNumberOfArgs f.name f.params.length args.length)

/-- The text that describes a function, if its body has one. -/
def describe? (f : Definition) : Option String := do
  let params := ", ".intercalate f.params
  let body ← f.body.toText?
  return s!"Function({f.name}({params}) = {body})"

end Definition

end Straightline
