import Straightline.Text.Printable

/-!
# Quoted text

Messages quote the text they speak of.  The quote is `'`, or `"` where the text holds a `'` and no
`"`.  A backslash, the quote in use, and the line feed, carriage return and tabulator are escaped with
a backslash; every other character that is not printable is spelled by its code in two, four or eight
hexadecimal digits.
-/

namespace Straightline.Text

namespace Quoted

/-- The last `width` hexadecimal digits of `n`. -/
def hex (width n : Nat) : List Char :=
  match width with
  | 0 => []
  | w + 1 => hex w (n / 16) ++ [Nat.digitChar (n % 16)]

/-- A character inside a text quoted with `quote`. -/
def escape (quote c : Char) : List Char :=
  if c = quote || c = '\\' then ['\\', c]
  else if c = '\n' then ['\\', 'n']
  else if c = '\r' then ['\\', 'r']
  else if c = '\t' then ['\\', 't']
  else if isPrintable c then [c]
  else if c.toNat < 0x100 then '\\' :: 'x' :: hex 2 c.toNat
  else if c.toNat < 0x10000 then '\\' :: 'u' :: hex 4 c.toNat
  else '\\' :: 'U' :: hex 8 c.toNat

/-- The quote that a text is put in. -/
def mark (cs : List Char) : Char :=
  if cs.contains '\x27' && !cs.contains '"' then '"' else '\x27'

end Quoted

/-- **A text in quotes**, with everything that would not print spelled out. -/
def quoted (s : String) : String :=
  let quote := Quoted.mark s.toList
  String.ofList (quote :: s.toList.flatMap (Quoted.escape quote) ++ [quote])

end Straightline.Text
