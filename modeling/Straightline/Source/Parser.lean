import Straightline.Grammar.Expression
import Straightline.Source.Expr

/-!
# Reading source programs

A program is a row of statements parted by semicolons, the last of which may be left out.
-/

namespace Straightline.Source

/-- The words that begin a statement. -/
def statementWords : List String := ["import", "define", "let", "export"]

/-- The tree of a call: a reduction if the name is that of one. -/
def callTree (name : String) (args : List Expr) : Expr :=
  match FoldOp.ofName? name with
  | some fold => .fold fold.op args
  | none => .call name args

/-- The expressions of the source language. -/
def dialect : Dialect Expr where
  strength := InfixOp.sourceStrength
  reserved := ["and", "or"] ++ statementWords
  literal := .literal
  ident := .ident
  unary := .unary
  binary := .binary
  call? := some callTree
  array? := some .array

namespace Parser

open Grammar

/-- The parameters behind the first one. -/
def moreParams : List Token → Except ReadError (List String × List Token)
  | comma :: t :: rest =>
    if comma.kind = .comma then
      if t.kind = .ident then do
        let (names, rest) ← moreParams rest
        return (t.text :: names, rest)
      else .error (.parse (.expected .param t))
    else .ok ([], comma :: t :: rest)
  | [t] => if t.kind = .comma then .error (.parse (.expected .param nothing)) else .ok ([], [t])
  | [] => .ok ([], [])

/-- The parameters of a definition. -/
def params : List Token → Except ReadError (List String × List Token)
  | t :: rest =>
    if t.kind = .ident then do
      let (names, rest) ← moreParams rest
      return (t.text :: names, rest)
    else .ok ([], t :: rest)
  | [] => .ok ([], [])

/-- The rest of a definition. -/
def definition (toks : List Token) : Except ReadError (Stmt × List Token) := do
  let (name, rest) ← expect .ident .functionName toks
  let (_, rest) ← expect .lparen .openParen rest
  let (names, rest) ← params rest
  let (_, rest) ← expect .rparen .closeParen rest
  let (_, rest) ← expect .assign .equals rest
  let (body, rest) ← dialect.expression rest
  return (.define name.text names body, rest)

/-- The rest of a binding. -/
def binding (toks : List Token) : Except ReadError (Stmt × List Token) := do
  let (name, rest) ← expect .ident .variableName toks
  let (_, rest) ← expect .assign .equals rest
  let (e, rest) ← dialect.expression rest
  return (.letVar name.text e, rest)

/-- A statement. -/
def statement (toks : List Token) : Except ReadError (Stmt × List Token) :=
  let t := peek toks
  let rest := toks.tail
  if t.kind = .ident ∧ t.text = "import" then do
    let (name, rest) ← expect .ident .variableName rest
    return (.importVar name.text, rest)
  else if t.kind = .ident ∧ t.text = "define" then definition rest
  else if t.kind = .ident ∧ t.text = "let" then binding rest
  else if t.kind = .ident ∧ t.text = "export" then do
    let (name, rest) ← expect .ident .variableName rest
    return (.exportVar name.text, rest)
  else .error (.parse (.expected .statement t))

/-- The statements up to the end, at most `n` of them. -/
def statements : Nat → List Token → Except ReadError Program
  | 0, _ => .error .tooDeep
  | n + 1, toks =>
    if (peek toks).kind = .eof then .ok []
    else do
      let (s, rest) ← statement toks
      if (peek rest).kind = .semi then do
        let more ← statements n rest.tail
        return s :: more
      else if (peek rest).kind = .eof then return [s]
      else .error (.parse (.expected .semicolon (peek rest)))

/-- **A program**, from its tokens. -/
def program (toks : List Token) : Except ReadError Program := statements (toks.length + 1) toks

end Parser

/-- **Reads a source program.** -/
def parse (s : String) : Except ReadError Program := do
  let toks ← (tokenize s).mapError .lex
  Parser.program toks

end Straightline.Source
