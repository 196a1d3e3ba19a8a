/-!
# Tokens

A program text is a row of tokens parted by white space and comments.  Each token knows the line and
column, both counted from one, at which it begins.
-/

namespace Straightline

/-- The kinds of tokens. -/
inductive Token.Kind where
  | ident
  | number
  | op
  | assign
  | comma
  | semi
  | lparen
  | rparen
  | lbracket
  | rbracket
  /-- The end of the text. -/
  | eof
  deriving DecidableEq, Repr

/-- The name of a kind in messages. -/
def Token.Kind.name : Token.Kind → String
  | .ident => "IDENT"
  | .number => "NUMBER"
  | .op => "OP"
  | .assign => "ASSIGN"
  | .comma => "COMMA"
  | .semi => "SEMI"
  | .lparen => "LPAREN"
  | .rparen => "RPAREN"
  | .lbracket => "LBRACKET"
  | .rbracket => "RBRACKET"
  | .eof => "EOF"

/-- A place in a text. -/
structure Position where
  line : Nat
  column : Nat
  deriving DecidableEq, Repr

namespace Position

/-- Where a text begins. -/
def start : Position := ⟨1, 1⟩

/-- The place behind a character; only a line feed starts a new line. -/
def next (p : Position) (c : Char) : Position :=
  if c = '\n' then ⟨p.line + 1, 1⟩ else ⟨p.line, p.column + 1⟩

/-- The place behind several characters. -/
def advance (p : Position) (cs : List Char) : Position := cs.foldl next p

/-- The wording of a place. -/
def toText (p : Position) : String := s!"{p.line}:{p.column}"

end Position

/-- **A token.** -/
structure Token where
  kind : Token.Kind
  text : String
  position : Position
  deriving DecidableEq, Repr

end Straightline
