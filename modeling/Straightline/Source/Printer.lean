import Straightline.Source.Expr

/-!
# Source text

An operand is put in parentheses exactly if it is itself an infix application.  A statement ends in a
semicolon and has a line of its own.  A tree has no text if it holds a reduction that does not exist.
-/

namespace Straightline.Source

namespace Printer

/-- Texts parted by a comma and a blank. -/
def commaSeparated (texts : List (List Char)) : List Char := [',', ' '].intercalate texts

/-- Whether an operand is put in parentheses. -/
def wraps : Expr → Bool
  | .binary _ _ _ => true
  | _ => false

/-- The text of an operand, in parentheses where `operand` needs them. -/
def operandText (operand : Expr) (text : List Char) : List Char :=
  if wraps operand then '(' :: text ++ [')'] else text

/-- The text of a call with the given arguments. -/
def callText (name : String) (args : List (List Char)) : List Char :=
  name.toList ++ ('(' :: commaSeparated args ++ [')'])

end Printer

open Printer

mutual

/-- The characters of an expression's text. -/
def Expr.print? : Expr → Option (List Char)
  | .literal n => some n.toChars
  | .ident name => some name.toList
  | .unary op e => do
    let text ← e.print?
    return op.token.toList ++ (if op.isWord then [' '] else []) ++ operandText e text
  | .binary l op r => do
    let left ← l.print?
    let right ← r.print?
    return operandText l left ++ ' ' :: op.token.toList ++ ' ' :: operandText r right
  | .call f args => do
    let texts ← printAll? args
    return callText f texts
  | .fold op args => do
    let fold ← FoldOp.ofOp? op
    let texts ← printAll? args
    return callText fold.name texts
  | .array items => do
    let texts ← printAll? items
    return '[' :: commaSeparated texts ++ [']']
  | .stray node => some node.shown.toList

/-- The texts of several expressions. -/
def printAll? : List Expr → Option (List (List Char))
  | [] => some []
  | e :: es => do
    let text ← e.print?
    let texts ← printAll? es
    return text :: texts

end

/-- **The text of an expression**, if it has one. -/
def Expr.toText? (e : Expr) : Option String := e.print?.map String.ofList

/-- The characters of a statement's text. -/
def Stmt.print? : Stmt → Option (List Char)
  | .importVar name => some ("import ".toList ++ name.toList ++ [';'])
  | .define name params body => do
    let text ← body.print?
    return "define ".toList ++ name.toList ++ '(' :: commaSeparated (params.map String.toList)
      ++ ") = ".toList ++ text ++ [';']
  | .letVar name e => do
    let text ← e.print?
    return "let ".toList ++ name.toList ++ " = ".toList ++ text ++ [';']
  | .exportVar name => some ("export ".toList ++ name.toList ++ [';'])
  | .stray node => some node.shown.toList

/-- **The text of a statement**, if it has one. -/
def Stmt.toText? (s : Stmt) : Option String := s.print?.map String.ofList

/-- **The text of a program**, if it has one. -/
def Program.toText? (p : Program) : Option String := do
  let texts ← p.mapM Stmt.print?
  return String.ofList (['\n'].intercalate texts)

end Straightline.Source
