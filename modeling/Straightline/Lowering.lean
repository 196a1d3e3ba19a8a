import Straightline.Scope

/-!
# Lowering expressions

`lower` computes the value of a source expression.  Functions are inlined: a call computes the body,
with each parameter standing for the computation of its argument.  An argument is thus computed
wherever its parameter is read, and not at all if it is read nowhere.

Before a function is inlined it is checked that it cannot come back to itself through the functions it
calls.  A function that passed is remembered and not checked again.  The remembered names are the state
of the computation; they also stay when it fails.

`call` takes a bound on the nesting of inlined calls.  No more calls can be nested than there are
functions, since none of them comes back to itself.
-/

namespace Straightline

/-- A computation that remembers which functions cannot come back to themselves. -/
abbrev Lower := EStateM Fault (List String)

namespace Lower

/-- A result, or the fault made of an error. -/
def ofExcept {ε α : Type} (fault : ε → Fault) : Except ε α → Lower α
  | .ok a => pure a
  | .error e => throw (fault e)

/-- The reduction of some values. -/
def reduce (fold : FoldOp) (values : List Value) : Lower Value :=
  ofExcept .mismatchedArrays (Value.reduce fold.op (.scalar (.literal fold.start)) values)

/-- The single element that a value stands for inside an array. -/
def element : Value → Lower Target.Expr
  | .scalar e => pure e
  | .vector _ => throw .nestedArrays

section
variable (var : String → Lower Value) (call : String → List (Lower Value) → Lower Value)

mutual

/-- **The value of an expression**, given those of variables and calls. -/
def expr : Source.Expr → Lower Value
  | .literal n => pure (.scalar (.literal n))
  | .ident x => var x
  | .unary op e => do
    let v ← expr e
    return v.unary op
  | .binary l op r => do
    let a ← expr l
    let b ← expr r
    ofExcept .mismatchedArrays (a.binary op b)
  | .call f args =>
    match FoldOp.ofName? f with
    | some fold => do
      let values ← exprs args
      reduce fold values
    | none => call f (delayed args)
  | .fold op args =>
    match FoldOp.ofOp? op with
    | some fold => do
      let values ← exprs args
      reduce fold values
    | none => throw (.noReduction op)
  | .array items => do
    let es ← elements items
    return .vector es
  | .stray _ => throw (.misplaced .sourceExpr)

/-- The values of several expressions. -/
def exprs : List Source.Expr → Lower (List Value)
  | [] => pure []
  | e :: es => do
    let v ← expr e
    let vs ← exprs es
    return v :: vs

/-- The elements of an array. -/
def elements : List Source.Expr → Lower (List Target.Expr)
  | [] => pure []
  | e :: es => do
    let v ← expr e
    let x ← element v
    let xs ← elements es
    return x :: xs

/-- The computations of several expressions, none of which is carried out. -/
def delayed : List Source.Expr → List (Lower Value)
  | [] => []
  | e :: es => expr e :: delayed es

end

end

/-- Checks that a function cannot come back to itself. -/
def checkRecursion (s : Scope) (f : Definition) : Lower Unit := do
  let checked ← get
  if f.name ∈ checked then return ()
  else if f.name ∈ s.callGraph.search f.callees then throw (.recursiveCall f.name)
  else set (f.name :: checked)

/-- A variable inside a function: the argument, if it is a parameter. -/
def local? (s : Scope) (args : Table (Lower Value)) (x : String) : Lower Value :=
  match args.get? x with
  | some arg => arg
  | none => ofExcept id (s.valueOf x)

/-- **The value of a call**, by inlining the function. -/
def call (s : Scope) : Nat → String → List (Lower Value) → Lower Value
  | 0, f, _ => throw (.endlessCall f)
  | depth + 1, f, args => do
    let fn ← ofExcept id (s.definitionOf f)
    checkRecursion s fn
    if args.length = fn.params.length then
      expr (local? s (fn.params.zip args)) (call s depth) fn.body
    else
      throw (.wrongNumberOfArgs fn.name fn.params.length args.length)

end Lower

/-- **The value of an expression** in a scope. -/
def lower (s : Scope) (e : Source.Expr) : Lower Value :=
  Lower.expr (fun x => Lower.ofExcept id (s.valueOf x)) (Lower.call s (s.functions.length + 1)) e

end Straightline
