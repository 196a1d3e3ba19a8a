import Straightline.Number.Basic
import Straightline.Text.Digit
import Straightline.Text.Quoted
import Straightline.Text.Space

/-!
# Numbers as text

A number is written with its sign, its whole part and, if it has one, its fraction without trailing
zeros.  It is read from an optional minus sign, decimal digits of any script and at most four decimals
behind a point; white space around it is skipped, and a value out of range saturates.

No more than `digitLimit` digits are converted.  A whole part that is longer is not read, though nothing
is wrong with how it is spelled; this is reported apart from the texts that are no numbers.
-/

namespace Straightline

namespace Number

/-! ## Writing -/

/-- The four decimals of `n < 10000`. -/
def fourDigits (n : Nat) : List Char :=
  [Nat.digitChar (n / 1000), Nat.digitChar (n / 100 % 10), Nat.digitChar (n / 10 % 10),
    Nat.digitChar (n % 10)]

/-- The digits without the zeros at their end. -/
def dropTrailingZeros (cs : List Char) : List Char :=
  (cs.reverse.dropWhile (· == '0')).reverse

/-- The text of a magnitude of `n` raw units. -/
def magnitudeText (n : Nat) : List Char :=
  Nat.toDigits 10 (n / 10000) ++
    if n % 10000 = 0 then [] else '.' :: dropTrailingZeros (fourDigits (n % 10000))

/-- The characters of a number's text. -/
def toChars (a : Number) : List Char :=
  (if a.raw < 0 then ['-'] else []) ++ magnitudeText a.raw.natAbs

/-- **The text of a number**, which reads back as it.  No shorter text does so, but for the least number
and the greatest one, which shorter texts out of range saturate to. -/
def toText (a : Number) : String := String.ofList a.toChars

instance : ToString Number := ⟨toText⟩

/-! ## Reading -/

/-- What is wrong with a text that is no number. -/
inductive FormatReason where
  /-- It does not have the shape of a decimal. -/
  | shape
  /-- It has more decimals than a number can hold. -/
  | places
  deriving DecidableEq, Repr

/-- The wording of a reason. -/
def FormatReason.message : FormatReason → String
  | .shape => "expected digits with an optional fraction"
  | .places => "more than 4 fractional digits"

/-- A text that is no number, as it was given. -/
structure FormatError where
  text : String
  reason : FormatReason
  deriving DecidableEq, Repr

/-- The wording of a format error. -/
def FormatError.message (e : FormatError) : String :=
  s!"invalid number {Text.quoted e.text}: {e.reason.message}"

/-- The most digits that are converted to an integer. -/
def digitLimit : Nat := 4300

/-- **Why a text is not read as a number.** -/
inductive TextError where
  /-- It is no number. -/
  | format (error : FormatError)
  /-- There are more digits before its point than are converted. -/
  | oversized (digits : Nat)
  deriving DecidableEq, Repr

/-- The wording for a whole part of too many digits. -/
def oversizedMessage (digits : Nat) : String :=
  s!"Exceeds the limit ({digitLimit} digits) for integer string conversion: value has {digits} digits; "
    ++ "use sys.set_int_max_str_digits() to increase the limit"

/-- The wording of a text error. -/
def TextError.message : TextError → String
  | .format e => e.message
  | .oversized digits => oversizedMessage digits

/-- The values of a row of decimal digits; `none` if it is empty or holds anything else. -/
def decimals? (cs : List Char) : Option (List Nat) :=
  if cs.isEmpty then none else cs.mapM Text.decimal?

/-- The natural number that a row of digit values spells. -/
def ofDigits (ds : List Nat) : Nat := ds.foldl (fun n d => 10 * n + d) 0

/-- The raw units that a whole part and up to four decimals spell. -/
def unitsOfDigits (whole fraction : List Nat) : Nat :=
  ofDigits whole * 10000 + ofDigits (fraction ++ List.replicate (4 - fraction.length) 0)

/-- The digits before and behind the point of an unsigned decimal. -/
def splitDecimal? (cs : List Char) : Option (List Nat × List Nat) :=
  match cs.dropWhile (· ≠ '.') with
  | [] => (decimals? cs).map (·, [])
  | _ :: fraction => do
    let w ← decimals? (cs.takeWhile (· ≠ '.'))
    let f ← decimals? fraction
    return (w, f)

/-- The raw units, sign apart, of an unsigned decimal that is part of `text`.  The decimals are counted
before the whole part is converted. -/
def unitsOfChars (text : String) (cs : List Char) : Except TextError Nat :=
  match splitDecimal? cs with
  | none => .error (.format ⟨text, .shape⟩)
  | some (whole, fraction) =>
    if 4 < fraction.length then .error (.format ⟨text, .places⟩)
    else if digitLimit < whole.length then .error (.oversized whole.length)
    else .ok (unitsOfDigits whole fraction)

/-- **Reads a number**, white space at the ends left out. -/
def ofText (s : String) : Except TextError Number :=
  match Text.strip s.toList with
  | '-' :: rest => (unitsOfChars s rest).map fun n : Nat => ofRaw (-n)
  | rest => (unitsOfChars s rest).map fun n : Nat => ofRaw n

end Number

end Straightline
