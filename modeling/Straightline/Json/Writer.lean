import Straightline.Json.Basic
import Straightline.Text.Quoted

/-!
# Writing JSON

Values are written in ASCII: every other character is spelled by its code in UTF-16, as one or two
groups of four hexadecimal digits.  `Json.compact` writes a value on one line, `Json.pretty` on one
line for every item, indented by two blanks a level.
-/

namespace Straightline.Json

namespace Writer

/-- One UTF-16 unit by its code. -/
def unit (n : Nat) : List Char := '\\' :: 'u' :: Text.Quoted.hex 4 n

/-- A character inside a string. -/
def escape (c : Char) : List Char :=
  if c = '"' || c = '\\' then ['\\', c]
  else if c = '\n' then ['\\', 'n']
  else if c = '\r' then ['\\', 'r']
  else if c = '\t' then ['\\', 't']
  else if c.toNat = 8 then ['\\', 'b']
  else if c.toNat = 12 then ['\\', 'f']
  else if 32 ≤ c.toNat && c.toNat < 127 then [c]
  else if c.toNat < 0x10000 then unit c.toNat
  else
    unit (0xD800 + (c.toNat - 0x10000) / 0x400) ++ unit (0xDC00 + (c.toNat - 0x10000) % 0x400)

/-- A string in quotes. -/
def quote (s : String) : String :=
  String.ofList ('"' :: s.toList.flatMap escape ++ ['"'])

/-- A value that holds no other. -/
def leaf : Json → String
  | bool b => if b then "true" else "false"
  | integer n => toString n
  | decimal negative digits exponent => (if negative then "-" else "") ++ s!"{digits}e{exponent}"
  | nonfinite w => w
  | string s => quote s
  | _ => "null"

end Writer

open Writer

mutual

/-- **A value on one line.** -/
def compact : Json → String
  | array items => "[" ++ ", ".intercalate (compactItems items) ++ "]"
  | object members => "\x7b" ++ ", ".intercalate (compactMembers members) ++ "\x7d"
  | v => leaf v

/-- The items of an array, each on one line. -/
def compactItems : List Json → List String
  | [] => []
  | v :: rest => compact v :: compactItems rest

/-- The members of an object, each on one line. -/
def compactMembers : List (String × Json) → List String
  | [] => []
  | (k, v) :: rest => (quote k ++ ": " ++ compact v) :: compactMembers rest

end

namespace Writer

/-- The lines between two brackets, each indented to `level`. -/
def block (level : Nat) (opening closing : String) (lines : List String) : String :=
  if lines.isEmpty then opening ++ closing
  else
    let pad (n : Nat) : String := "\n" ++ String.ofList (List.replicate (2 * n) ' ')
    opening ++ ",".intercalate (lines.map (pad (level + 1) ++ ·)) ++ pad level ++ closing

end Writer

mutual

/-- A value over several lines, standing at indentation `level`. -/
def prettyAt (level : Nat) : Json → String
  | array items => block level "[" "]" (prettyItems (level + 1) items)
  | object members => block level "\x7b" "\x7d" (prettyMembers (level + 1) members)
  | v => leaf v

/-- The items of an array at indentation `level`. -/
def prettyItems (level : Nat) : List Json → List String
  | [] => []
  | v :: rest => prettyAt level v :: prettyItems level rest

/-- The members of an object at indentation `level`. -/
def prettyMembers (level : Nat) : List (String × Json) → List String
  | [] => []
  | (k, v) :: rest => (quote k ++ ": " ++ prettyAt level v) :: prettyMembers level rest

end

/-- **A value over several lines**, indented by two blanks a level. -/
def pretty (v : Json) : String := prettyAt 0 v

end Straightline.Json
