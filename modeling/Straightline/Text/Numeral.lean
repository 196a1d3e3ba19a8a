/-!
# Numerals

A numeral is a row of digits in which single underscores may part two digits.  Which characters are
digits, and what they are worth, is left to the reader of the numeral.
-/

namespace Straightline.Text

/-- The values of the digits of a numeral; `none` if it is empty or holds anything else. -/
def digits? (value : Char → Option Nat) : List Char → Option (List Nat)
  | [] => none
  | [c] => (value c).map fun d => [d]
  | c :: '_' :: rest => do return (← value c) :: (← digits? value rest)
  | c :: rest => do return (← value c) :: (← digits? value rest)

/-- The natural number that a numeral spells. -/
def natural? (value : Char → Option Nat) (cs : List Char) : Option Nat :=
  (digits? value cs).map fun ds => ds.foldl (fun n d => 10 * n + d) 0

/-- The value of an ASCII digit. -/
def asciiDigit? (c : Char) : Option Nat := if c.isDigit then some (c.toNat - 48) else none

end Straightline.Text
