import Straightline.Number.Text
import Straightline.Token.Lexer

/-!
# Texts that cannot be read

A text is refused by the lexer, or by the grammar of its language at a token that does not fit.  There is
a third cause that neither of them names: a numeral of more digits than are converted.
-/

namespace Straightline

/-- What the grammar asks for at a place. -/
inductive Expectation where
  | semicolon
  | statement
  | variableName
  | functionName
  | param
  | openParen
  | closeParen
  | closeBracket
  | equals
  | target
  deriving DecidableEq, Repr

/-- The wording of an expectation. -/
def Expectation.message : Expectation → String
  | .semicolon => "Expected ';'"
  | .statement => "Expected statement"
  | .variableName => "Expected variable name"
  | .functionName => "Expected function name"
  | .param => "Expected param"
  | .openParen => "Expected '('"
  | .closeParen => "Expected ')'"
  | .closeBracket => "Expected ']'"
  | .equals => "Expected '='"
  | .target => "Expected assignment target"

/-- A row of tokens that the grammar does not derive. -/
inductive ParseError where
  /-- Another token was called for. -/
  | expected (what : Expectation) (found : Token)
  /-- No expression begins with the token. -/
  | unexpected (found : Token)
  /-- The token looks like a number and is none. -/
  | number (error : Number.FormatError) (position : Position)
  deriving DecidableEq, Repr

/-- The wording of a parse error. -/
def ParseError.message : ParseError → String
  | .expected what t =>
    s!"{what.message} at {t.position.toText} (got {t.kind.name} {Text.quoted t.text})"
  | .unexpected t =>
    s!"Unexpected token {t.kind.name} {Text.quoted t.text} at {t.position.toText}"
  | .number e p => s!"{e.message} at {p.toText}"

/-- **Why a text cannot be read.** -/
inductive ReadError where
  | lex (error : LexError)
  | parse (error : ParseError)
  /-- A numeral has more digits before its point than are converted.  It is not told where. -/
  | oversized (digits : Nat)
  /-- The bound on the nesting of an expression is used up. -/
  | tooDeep
  deriving DecidableEq, Repr

/-- The wording of a read error. -/
def ReadError.message : ReadError → String
  | .lex e => e.message
  | .parse e => e.message
  | .oversized digits => Number.oversizedMessage digits
  | .tooDeep => "Expression nested too deeply"

/-- What becomes of a numeral that is not read. -/
def ReadError.ofNumeral (position : Position) : Number.TextError → ReadError
  | .format e => .parse (.number e position)
  | .oversized digits => .oversized digits

end Straightline
