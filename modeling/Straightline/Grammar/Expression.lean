import Straightline.Grammar.Error
import Straightline.Operator

/-!
# The grammar of expressions

Both languages share one grammar of expressions, up to what a `Dialect` fixes: the strengths of the
infix operators, the words that cannot stand for a variable, whether there are calls and arrays, and
the trees that are built.

Expressions are read by precedence climbing.  `expression d least` reads operators of strength `least`
and above; behind an operator it continues with the next greater strength, or the same one if the
operator groups to the right.  A minus sign directly before a numeral belongs to it; otherwise prefix
operators bind tighter than every infix operator.

The readers take a bound on the nesting of their calls.  `Dialect.bound` is enough for any row of
tokens: between two tokens taken there are never more than six calls.
-/

namespace Straightline

/-- **What a language fixes of the grammar of expressions.** -/
structure Dialect (ε : Type) where
  /-- How tightly an infix operator binds. -/
  strength : InfixOp → Nat
  /-- The names that are no variables. -/
  reserved : List String
  literal : Number → ε
  ident : String → ε
  unary : PrefixOp → ε → ε
  binary : ε → InfixOp → ε → ε
  /-- The tree of a call, in a language that has calls. -/
  call? : Option (String → List ε → ε)
  /-- The tree of an array, in a language that has arrays. -/
  array? : Option (List ε → ε)

namespace Grammar

/-- Stands for the token behind the last one. -/
def nothing : Token := ⟨.eof, "", .start⟩

/-- The token at the front. -/
def peek (toks : List Token) : Token := toks.headD nothing

/-- Takes a token of the given kind. -/
def expect (kind : Token.Kind) (what : Expectation) :
    List Token → Except ReadError (Token × List Token)
  | t :: rest => if t.kind = kind then .ok (t, rest) else .error (.parse (.expected what t))
  | [] => .error (.parse (.expected what nothing))

/-- The infix operator that a token spells. -/
def infixOp? (t : Token) : Option InfixOp :=
  if t.kind = .op ∨ (t.kind = .ident ∧ (t.text = "and" ∨ t.text = "or")) then
    InfixOp.ofToken? t.text
  else none

/-- The prefix operator that a token spells. -/
def prefixOp? (t : Token) : Option PrefixOp :=
  if t.kind = .op ∨ t.kind = .ident then PrefixOp.ofToken? t.text else none

/-- The number that a numeral spells, with a minus sign before it or not. -/
def numeral (negative : Bool) (t : Token) : Except ReadError Number :=
  (Number.ofText (if negative then "-" ++ t.text else t.text)).mapError (.ofNumeral t.position)

variable {ε : Type} (d : Dialect ε)

/-- The least strength of an operator inside the right operand of `op`. -/
def rightStrength (op : InfixOp) : Nat :=
  if op.isRightAssociative then d.strength op else d.strength op + 1

mutual

/-- An expression whose outermost operators are of strength `least` and above. -/
def expression : Nat → Nat → List Token → Except ReadError (ε × List Token)
  | 0, _, _ => .error .tooDeep
  | n + 1, least, toks => do
    let (lhs, rest) ← unary n toks
    climb n least lhs rest

/-- The operators of strength `least` and above that follow a left operand. -/
def climb : Nat → Nat → ε → List Token → Except ReadError (ε × List Token)
  | 0, _, _, _ => .error .tooDeep
  | _ + 1, _, lhs, [] => .ok (lhs, [])
  | n + 1, least, lhs, t :: rest =>
    match infixOp? t with
    | none => .ok (lhs, t :: rest)
    | some op =>
      if d.strength op < least then .ok (lhs, t :: rest)
      else do
        let (rhs, rest) ← expression n (rightStrength d op) rest
        climb n least (d.binary lhs op rhs) rest

/-- A primary expression under prefix operators. -/
def unary : Nat → List Token → Except ReadError (ε × List Token)
  | 0, _ => .error .tooDeep
  | n + 1, toks =>
    match prefixOp? (peek toks) with
    | none => primary n toks
    | some op =>
      if op = .neg ∧ (peek toks.tail).kind = .number then do
        let value ← numeral true (peek toks.tail)
        return (d.literal value, toks.tail.tail)
      else do
        let (operand, rest) ← unary n toks.tail
        return (d.unary op operand, rest)

/-- A numeral, a variable, a call, an array, or an expression in parentheses. -/
def primary : Nat → List Token → Except ReadError (ε × List Token)
  | 0, _ => .error .tooDeep
  | _ + 1, [] => .error (.parse (.unexpected nothing))
  | n + 1, t :: rest =>
    match t.kind with
    | .number => do
      let value ← numeral false t
      return (d.literal value, rest)
    | .ident =>
      if t.text ∈ d.reserved then .error (.parse (.unexpected t))
      else
        match d.call? with
        | none => .ok (d.ident t.text, rest)
        | some call =>
          if (peek rest).kind = .lparen then do
            let (args, rest) ← arguments n .rparen .closeParen rest.tail
            return (call t.text args, rest)
          else .ok (d.ident t.text, rest)
    | .lbracket =>
      match d.array? with
      | none => .error (.parse (.unexpected t))
      | some array => do
        let (items, rest) ← arguments n .rbracket .closeBracket rest
        return (array items, rest)
    | .lparen => do
      let (inner, rest) ← expression n 0 rest
      let (_, rest) ← expect .rparen .closeParen rest
      return (inner, rest)
    | _ => .error (.parse (.unexpected t))

/-- The expressions of a list, up to the bracket that closes it. -/
def arguments : Nat → Token.Kind → Expectation → List Token →
    Except ReadError (List ε × List Token)
  | 0, _, _, _ => .error .tooDeep
  | n + 1, close, what, toks =>
    if (peek toks).kind = close then .ok ([], toks.tail) else argumentsFrom n close what toks

/-- The expressions of a list that is not empty. -/
def argumentsFrom : Nat → Token.Kind → Expectation → List Token →
    Except ReadError (List ε × List Token)
  | 0, _, _, _ => .error .tooDeep
  | n + 1, close, what, toks => do
    let (first, rest) ← expression n 0 toks
    if (peek rest).kind = .comma then do
      let (more, rest) ← argumentsFrom n close what rest.tail
      return (first :: more, rest)
    else do
      let (_, rest) ← expect close what rest
      return ([first], rest)

end

/-- A bound on the nesting of calls that no row of tokens uses up. -/
def bound (toks : List Token) : Nat := 6 * toks.length + 6

end Grammar

/-- **Reads an expression** off the front of a row of tokens. -/
def Dialect.expression {ε : Type} (d : Dialect ε) (toks : List Token) :
    Except ReadError (ε × List Token) :=
  Grammar.expression d (Grammar.bound toks) 0 toks

end Straightline
