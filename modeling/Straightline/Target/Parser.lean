import Straightline.Grammar.Expression
import Straightline.Target.Expr

/-!
# Reading target programs

A target program is a row of assignments, with nothing but white space between them.
-/

namespace Straightline.Target

/-- The expressions of the target language. -/
def dialect : Dialect Expr where
  strength := InfixOp.strength
  reserved := ["and", "or"]
  literal := .literal
  ident := .ident
  unary := .unary
  binary := .binary
  call? := none
  array? := none

namespace Parser

open Grammar

/-- An assignment. -/
def statement (toks : List Token) : Except ReadError (Stmt × List Token) := do
  let (target, rest) ← expect .ident .target toks
  let (_, rest) ← expect .assign .equals rest
  let (e, rest) ← dialect.expression rest
  return (.assign target.text e, rest)

/-- The assignments up to the end, at most `n` of them. -/
def statements : Nat → List Token → Except ReadError (List Stmt)
  | 0, _ => .error .tooDeep
  | n + 1, toks =>
    if (peek toks).kind = .eof then .ok []
    else do
      let (s, rest) ← statement toks
      let more ← statements n rest
      return s :: more

/-- **A program**, from its tokens. -/
def program (toks : List Token) : Except ReadError (List Stmt) := statements (toks.length + 1) toks

end Parser

/-- **Reads a target program.** -/
def parse (s : String) : Except ReadError (List Stmt) := do
  let toks ← (tokenize s).mapError .lex
  Parser.program toks

end Straightline.Target
