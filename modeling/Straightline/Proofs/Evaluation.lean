import Straightline.Definition

/-!
# Direct evaluation of source programs

A second account of what a source program means, which knows nothing of target programs: an expression
has a number or an array of numbers as its value, operators act element by element on the values of
their operands, and a function is called with the values of its arguments.

`Expr.eval` computes the value of an expression from those of variables and calls, and `evalCall` the
value of a call; it takes a bound on the nesting of calls, since the source language does not rule out
functions that call each other without end.  `Evaluates` runs a program: it holds if every bound
expression has a value, at whatever nesting of calls.
-/

namespace Straightline.Source

/-- **The value of an expression**: a number or an array of numbers. -/
inductive Datum where
  | number (n : Number)
  | array (ns : List Number)
  deriving DecidableEq

namespace Datum

/-- The numbers that a value is made of. -/
def numbers : Datum → List Number
  | number n => [n]
  | array ns => ns

/-- The number that a value is, unless it is an array. -/
def number? : Datum → Option Number
  | number n => some n
  | array _ => none

variable [Elementary]

/-- Applies a prefix operator to every element. -/
def unary (op : PrefixOp) : Datum → Option Datum
  | number a => (op.apply a).toOption.map number
  | array as => (as.mapM fun a => (op.apply a).toOption).map array

/-- Applies an infix operator element by element; a number beside an array meets all its elements. -/
def binary (op : InfixOp) : Datum → Datum → Option Datum
  | number a, number b => (op.apply a b).toOption.map number
  | number a, array bs => (bs.mapM fun b => (op.apply a b).toOption).map array
  | array as, number b => (as.mapM fun a => (op.apply a b).toOption).map array
  | array as, array bs =>
    if as.length = bs.length then
      ((as.zip bs).mapM fun p => (op.apply p.1 p.2).toOption).map array
    else none

/-- Joins all numbers of some values from the left. -/
def fold (op : FoldOp) (values : List Datum) : Option Datum :=
  ((values.flatMap numbers).foldlM (fun a b => (op.op.apply a b).toOption) op.start).map number

end Datum

variable [Elementary]

section
variable (var : String → Option Datum) (call : String → List Datum → Option Datum)

mutual

/-- **The value of an expression**, given those of variables and calls. -/
def Expr.eval : Expr → Option Datum
  | .literal n => some (.number n)
  | .ident x => var x
  | .unary op e => do (← e.eval).unary op
  | .binary l op r => do (← l.eval).binary op (← r.eval)
  | .call f args => do
    let values ← Expr.evalAll args
    match FoldOp.ofName? f with
    | some op => Datum.fold op values
    | none => call f values
  | .fold op args => do
    let fold ← FoldOp.ofOp? op
    Datum.fold fold (← Expr.evalAll args)
  | .array items => do
    let values ← Expr.evalAll items
    (values.mapM Datum.number?).map .array
  | .stray _ => none

/-- The values of several expressions. -/
def Expr.evalAll : List Expr → Option (List Datum)
  | [] => some []
  | e :: es => do return (← e.eval) :: (← Expr.evalAll es)

end

end

/-- **The value of a call**: that of the body, with the parameters bound to the values of the
arguments. -/
def evalCall (functions : Table Definition) : Nat → String → List Datum → Option Datum
  | 0, _, _ => none
  | depth + 1, f, values => do
    let fn ← functions.get? f
    if values.length = fn.params.length then
      fn.body.eval (Table.get? (fn.params.zip values)) (evalCall functions depth)
    else none

/-- What a program knows at some point: the values of its variables, and its functions. -/
structure Environment where
  values : Table Datum := []
  functions : Table Definition := []

namespace Environment

/-- Binds a variable. -/
def bind (env : Environment) (x : String) (d : Datum) : Environment :=
  { env with values := env.values.set x d }

/-- Enters a function. -/
def define (env : Environment) (f : Definition) : Environment :=
  { env with functions := env.functions.set f.name f }

/-- The value of an expression, with calls nested at most `depth` deep. -/
def eval (env : Environment) (depth : Nat) (e : Expr) : Option Datum :=
  e.eval env.values.get? (evalCall env.functions depth)

end Environment

/-- **Direct evaluation of a program** that starts out from one environment and ends in another;
`inputs` gives the imported variables their values. -/
inductive Evaluates (inputs : String → Number) : Environment → Program → Environment → Prop
  | nil (env : Environment) : Evaluates inputs env [] env
  | importVar {env env' : Environment} {x : String} {rest : Program} :
      Evaluates inputs (env.bind x (.number (inputs x))) rest env' →
      Evaluates inputs env (.importVar x :: rest) env'
  | define {env env' : Environment} {f : String} {params : List String} {body : Expr}
      {rest : Program} :
      Evaluates inputs (env.define ⟨f, params, body⟩) rest env' →
      Evaluates inputs env (.define f params body :: rest) env'
  | letVar {env env' : Environment} {x : String} {e : Expr} {rest : Program} (depth : Nat)
      (d : Datum) :
      env.eval depth e = some d → Evaluates inputs (env.bind x d) rest env' →
      Evaluates inputs env (.letVar x e :: rest) env'
  | exportVar {env env' : Environment} {x : String} {rest : Program} :
      Evaluates inputs env rest env' → Evaluates inputs env (.exportVar x :: rest) env'

end Straightline.Source
