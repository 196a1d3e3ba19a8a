/-!
# Fixed-point numbers

A `Number` is a decimal with four places, held as a 64-bit signed integer counting ten-thousandths.
`Number.ofRaw` brings any integer into that range by saturation, so an operation that leaves the
range stops at its end instead of wrapping around.  Products and quotients are truncated toward zero
once and saturated once.

Truth is a number too: the comparisons and the logical operations yield `1` or `0`, and every number
but `0` counts as true.
-/

namespace Straightline

namespace Number

/-- How many raw units make one. -/
def scale : Int := 10000

/-- The least raw value. -/
def rawMin : Int := -9223372036854775808

/-- The greatest raw value. -/
def rawMax : Int := 9223372036854775807

end Number

/-- **A fixed-point number**: `raw` ten-thousandths, within 64 bits. -/
structure Number where
  raw : Int
  rawMin_le : Number.rawMin ≤ raw
  le_rawMax : raw ≤ Number.rawMax
  deriving DecidableEq

namespace Number

/-- Why an operation on numbers has no result. -/
inductive Fault where
  /-- The right operand of the operator is zero. -/
  | divisionByZero (operator : String)
  /-- The operand lies outside the operator's domain. -/
  | undefined (operator operand : String)
  /-- A finite result becomes infinite when it is scaled to raw units. -/
  | unscalable
  deriving DecidableEq, Repr

/-- The wording of a fault. -/
def Fault.message : Fault → String
  | .divisionByZero op => s!"division by zero in '{op}'"
  | .undefined op operand => s!"'{op}' is undefined for {operand}"
  | .unscalable => "cannot convert float infinity to integer"

/-- Whether the fault lies in the operands.  Such a fault leaves an operation unfolded and is reported
against the assignment it stops; an unscalable result is neither. -/
def Fault.isOfOperands : Fault → Bool
  | .unscalable => false
  | _ => true

/-- The number nearest to `n` raw units. -/
def ofRaw (n : Int) : Number :=
  if _ : n < rawMin then ⟨rawMin, by decide, by decide⟩
  else if _ : rawMax < n then ⟨rawMax, by decide, by decide⟩
  else ⟨n, by omega, by omega⟩

/-- The least number. -/
def least : Number := ofRaw rawMin

/-- The greatest number. -/
def greatest : Number := ofRaw rawMax

/-- Zero, which stands for falsehood. -/
def zero : Number := ofRaw 0

/-- One, which stands for truth. -/
def one : Number := ofRaw scale

/-- A whole number, saturated. -/
def ofInt (n : Int) : Number := ofRaw (n * scale)

/-- The number that stands for a truth value. -/
def ofBool (b : Bool) : Number := if b then one else zero

/-- Whether the number counts as true. -/
def isTrue (a : Number) : Bool := decide (a.raw ≠ 0)

/-! ## Order -/

instance : LE Number := ⟨fun a b => a.raw ≤ b.raw⟩

instance : LT Number := ⟨fun a b => a.raw < b.raw⟩

instance (a b : Number) : Decidable (a ≤ b) := inferInstanceAs (Decidable (a.raw ≤ b.raw))

instance (a b : Number) : Decidable (a < b) := inferInstanceAs (Decidable (a.raw < b.raw))

/-! ## Arithmetic -/

/-- The sum, saturated. -/
def add (a b : Number) : Number := ofRaw (a.raw + b.raw)

/-- The difference, saturated. -/
def sub (a b : Number) : Number := ofRaw (a.raw - b.raw)

/-- The product, truncated to four places and saturated. -/
def mul (a b : Number) : Number := ofRaw ((a.raw * b.raw).tdiv scale)

/-- The quotient, truncated to four places and saturated. -/
def div (a b : Number) : Except Fault Number :=
  if b.raw = 0 then .error (.divisionByZero "/")
  else .ok (ofRaw ((a.raw * scale).tdiv b.raw))

/-- What is left of `a` after whole multiples of `b` are taken from it; it has the sign of `a`. -/
def mod (a b : Number) : Except Fault Number :=
  if b.raw = 0 then .error (.divisionByZero "%")
  else .ok (ofRaw (a.raw - b.raw * a.raw.tdiv b.raw))

/-- The negation, saturated. -/
def neg (a : Number) : Number := ofRaw (-a.raw)

/-- The magnitude, saturated. -/
def abs (a : Number) : Number := ofRaw a.raw.natAbs

/-! ## Square root -/

/-- The greatest natural number whose square is at most `n`, found two binary digits at a time. -/
def floorSqrt (n : Nat) : Nat :=
  if n = 0 then 0
  else
    let r := 2 * floorSqrt (n / 4)
    if (r + 1) * (r + 1) ≤ n then r + 1 else r

end Number

end Straightline
