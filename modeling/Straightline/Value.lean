import Straightline.Target.Expr

/-!
# Array values

The value of a source expression is one target expression, or a fixed number of them.  Operators act
element by element, and a scalar beside a vector is repeated to its length.  A vector bound to a name
`x` lives in the target variables `x_0`, `x_1`, ….
-/

namespace Straightline

/-- **The value of a source expression.** -/
inductive Value where
  | scalar (expr : Target.Expr)
  | vector (exprs : List Target.Expr)
  deriving DecidableEq

/-- Two vectors that do not have the same length. -/
structure Mismatch where
  op : InfixOp
  left : Nat
  right : Nat
  deriving DecidableEq, Repr

/-- The target variable that holds an element of a vector. -/
def elementName (name : String) (index : Nat) : String := s!"{name}_{index}"

namespace Value

/-- The scalars that a value is made of. -/
def scalars : Value → List Target.Expr
  | scalar e => [e]
  | vector es => es

/-- Applies a prefix operator to every element. -/
def unary (op : PrefixOp) : Value → Value
  | scalar e => scalar (.unary op e)
  | vector es => vector (es.map (.unary op))

/-- Applies an infix operator element by element. -/
def binary (op : InfixOp) : Value → Value → Except Mismatch Value
  | scalar a, scalar b => .ok (scalar (.binary a op b))
  | scalar a, vector bs => .ok (vector (bs.map fun b => .binary a op b))
  | vector as, scalar b => .ok (vector (as.map fun a => .binary a op b))
  | vector as, vector bs =>
    if as.length = bs.length then .ok (vector (List.zipWith (fun a b => .binary a op b) as bs))
    else .error ⟨op, as.length, bs.length⟩

/-- Joins scalars to a value from the left. -/
def joinAll (op : InfixOp) : Value → List Target.Expr → Except Mismatch Value
  | v, [] => .ok v
  | v, e :: es => do joinAll op (← v.binary op (scalar e)) es

/-- Reduces all scalars of some values, in order, onto a first one. -/
def reduce (op : InfixOp) (start : Value) (values : List Value) : Except Mismatch Value :=
  joinAll op start (values.flatMap scalars)

/-- The names of `n` elements from number `i` on. -/
def elementNames (name : String) (i : Nat) : Nat → List String
  | 0 => []
  | n + 1 => elementName name i :: elementNames name (i + 1) n

/-- The target variables that a value bound to `name` lives in, with what each of them holds. -/
def parts (name : String) : Value → List (String × Target.Expr)
  | scalar e => [(name, e)]
  | vector es => (elementNames name 0 es.length).zip es

/-- A value of the same shape that refers to the variables it lives in. -/
def reference (name : String) : Value → Value
  | scalar _ => scalar (.ident name)
  | vector es => vector ((elementNames name 0 es.length).map .ident)

/-- The variable that a scalar refers to. -/
def variableOf : Target.Expr → Except Misplaced String
  | .ident name => .ok name
  | _ => .error .reference

/-- The variables that a value refers to. -/
def cells (v : Value) : Except Misplaced (List String) := v.scalars.mapM variableOf

end Value

end Straightline
