/-!
# Rounding doubles to integers

A finite double is a whole significand times a power of two, so its nearest integer can be computed
exactly: the fraction that is cut off is compared with one half, and a half goes to the even side.
-/

namespace Straightline.Binary64

/-- The exact value `±significand · 2^exponent` of a finite double. -/
structure Finite where
  negative : Bool
  significand : Nat
  exponent : Int
  deriving DecidableEq, Repr

/-- The exact value of a double; `none` for the infinities and what is not a number. -/
def decode? (x : Float) : Option Finite :=
  let bits : Nat := x.toBits.toNat
  let negative := decide (bits / Nat.pow 2 63 = 1)
  let field : Nat := bits / Nat.pow 2 52 % 2048
  let fraction : Nat := bits % Nat.pow 2 52
  if field = 2047 then none
  else if field = 0 then some ⟨negative, fraction, -1074⟩
  else some ⟨negative, Nat.pow 2 52 + fraction, (field : Int) - 1075⟩

/-- The quotient `n / d` to the nearest natural number, a half to the even one. -/
def roundDiv (n d : Nat) : Nat :=
  let q := n / d
  let r := n % d
  if 2 * r < d then q
  else if d < 2 * r then q + 1
  else if q % 2 = 0 then q else q + 1

/-- The nearest integer, a half to the even one. -/
def Finite.round (v : Finite) : Int :=
  let magnitude :=
    if 0 ≤ v.exponent then v.significand * Nat.pow 2 v.exponent.toNat
    else roundDiv v.significand (Nat.pow 2 (-v.exponent).toNat)
  if v.negative then -(magnitude : Int) else magnitude

/-- The integer that a double is, if it has no fraction. -/
def Finite.integer? (v : Finite) : Option Int :=
  if 0 ≤ v.exponent || v.significand % Nat.pow 2 (-v.exponent).toNat = 0 then some v.round else none

/-- **The integer nearest to a double**, a half to the even one; `none` if the double is not finite. -/
def round? (x : Float) : Option Int := (decode? x).map Finite.round

end Straightline.Binary64
