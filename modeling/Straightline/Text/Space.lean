import Straightline.Text.Ranges

/-!
# White space

The separators a program may be laid out with: the ASCII blanks, line feeds and tabulators, the four
ASCII information separators, and the space, line and paragraph separators of the other scripts.  A
zero-width space and a byte order mark are not among them.
-/

namespace Straightline.Text

namespace Space

/-- The white space past ASCII. -/
def beyondAscii : Ranges := [
    (0x85, 0x85), (0xA0, 0xA0), (0x1680, 0x1680), (0x2000, 0x200A), (0x2028, 0x2029),
    (0x202F, 0x202F), (0x205F, 0x205F), (0x3000, 0x3000)]

end Space

/-- Whether `c` separates tokens. -/
def isSpace (c : Char) : Bool :=
  if c.toNat < 128 then
    (9 ≤ c.toNat && c.toNat ≤ 13) || (28 ≤ c.toNat && c.toNat ≤ 32)
  else
    Space.beyondAscii.contains c

/-- The text without the white space at both ends. -/
def strip (cs : List Char) : List Char :=
  ((cs.dropWhile isSpace).reverse.dropWhile isSpace).reverse

end Straightline.Text
