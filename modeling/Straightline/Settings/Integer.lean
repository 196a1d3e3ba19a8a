import Straightline.Text.Numeral
import Straightline.Text.Space

/-!
# Whole numbers in text

A setting that is a whole number may be given as text.  A sign and a row of digits is such a number
(`signed?`).  Some other forms are reduced to it (`reduce?`): white space around the number, zeros in
front of it, a fraction of zeros behind it, and single underscores inside it.
-/

namespace Straightline.Settings

/-- Whether `c` may surround a number in text: white space, the information separators apart. -/
def isPadding (c : Char) : Bool := Text.isSpace c && !(28 ≤ c.toNat && c.toNat ≤ 31)

/-- The text without the padding at both ends. -/
def trim (cs : List Char) : List Char :=
  ((cs.dropWhile isPadding).reverse.dropWhile isPadding).reverse

/-- The natural number that a row of digits spells. -/
def natural? (cs : List Char) : Option Nat :=
  if cs.contains '_' then none else Text.natural? Text.asciiDigit? cs

/-- The whole number that a row of digits spells, with a sign or without. -/
def signed? : List Char → Option Int
  | '+' :: cs => (natural? cs).map Int.ofNat
  | '-' :: cs => (natural? cs).map (-Int.ofNat ·)
  | cs => (natural? cs).map Int.ofNat

/-- The number without a plus sign in front of it.  No second sign may follow. -/
def withoutPlus? : List Char → Option (List Char)
  | '+' :: '-' :: _ => none
  | '+' :: cs => some cs
  | cs => some cs

/-- Whether a number without leading zeros may begin with `c`. -/
def isHead (c : Char) : Bool := c = '-' || ('1' ≤ c && c ≤ '9')

/-- The number behind leading zeros and the underscores among them, where `last` is the one before
`cs`.  It is kept if no other digit stands before the point or the end. -/
def afterZeros? (last : Char) : List Char → Option (List Char)
  | [] => some [last]
  | c :: cs =>
    if c = '0' || c = '_' then afterZeros? c cs
    else if c = '.' then some (last :: c :: cs)
    else if isHead c then some (c :: cs)
    else none

/-- The number without leading zeros.  They may stand before a minus sign. -/
def withoutZeros? : List Char → Option (List Char)
  | [] => none
  | c :: cs => if c = '0' then afterZeros? c cs else if isHead c then some (c :: cs) else none

/-- The number without a fraction that is a row of zeros. -/
def withoutFraction (cs : List Char) : List Char :=
  let zeros := (cs.dropWhile (· ≠ '.')).drop 1
  if !zeros.isEmpty && zeros.all (· = '0') then cs.takeWhile (· ≠ '.') else cs

/-- Whether every underscore stands alone between two other characters. -/
def isParted : List Char → Bool
  | [] => true
  | [c] => c ≠ '_'
  | c :: d :: cs => !(c = '_' && d = '_') && isParted (d :: cs)

/-- The number without the underscores inside it. -/
def withoutUnderscores (cs : List Char) : List Char :=
  if cs.head? ≠ some '_' && isParted cs then cs.filter (· ≠ '_') else cs

/-- A number in one of the other forms, reduced to a sign and digits. -/
def reduce? (cs : List Char) : Option (List Char) := do
  let plain ← withoutZeros? (← withoutPlus? cs)
  return withoutUnderscores (withoutFraction plain)

/-- **The whole number that a text spells.** -/
def integerOfText? (s : String) : Option Int :=
  let cs := trim s.toList
  match signed? cs with
  | some n => some n
  | none => (reduce? cs).bind signed?

end Straightline.Settings
