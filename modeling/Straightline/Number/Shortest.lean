import Straightline.Number.Binary64

/-!
# The fewest digits of a double

The reals that round to a double form an interval: it reaches halfway to the neighbour on either side,
and its ends belong to it exactly if the significand is even.  A decimal in this interval *reads back*
(`readsBack`).  `shortest` looks for one on coarser decimal grids first, so that no decimal with fewer
digits reads back; of two on the same grid it takes the nearer, at a tie the even one.
-/

namespace Straightline.Binary64

/-- The decimal `digits · 10^exponent`. -/
structure Decimal where
  digits : Nat
  exponent : Int
  deriving DecidableEq, Repr

/-- How the decimal compares with `n · 2^e`. -/
def Decimal.compareBinary (d : Decimal) (n : Nat) (e : Int) : Ordering :=
  compare (d.digits * Nat.pow 10 d.exponent.toNat * Nat.pow 2 (-e).toNat)
    (n * Nat.pow 2 e.toNat * Nat.pow 10 (-d.exponent).toNat)

namespace Finite

/-- Whether the neighbour below is half as far away as the one above. -/
def isNarrowBelow (v : Finite) : Bool :=
  v.significand = Nat.pow 2 52 && -1074 < v.exponent

/-- Whether a decimal rounds to the magnitude: it lies in the interval of the double. -/
def readsBack (v : Finite) (d : Decimal) : Bool :=
  let below := d.compareBinary (4 * v.significand - if v.isNarrowBelow then 1 else 2) (v.exponent - 2)
  let above := d.compareBinary (4 * v.significand + 2) (v.exponent - 2)
  if v.significand % 2 = 0 then below != .lt && above != .gt else below == .gt && above == .lt

/-- The magnitude in units of `10^unit`, rounded down. -/
def floorAt (v : Finite) (unit : Int) : Nat :=
  v.significand * Nat.pow 2 v.exponent.toNat * Nat.pow 10 (-unit).toNat /
    (Nat.pow 2 (-v.exponent).toNat * Nat.pow 10 unit.toNat)

/-- The place of the leading digit of a magnitude that is not zero.  No magnitude is below
`10^-400`. -/
def leadingPlace (v : Finite) : Int := (Nat.toDigits 10 (v.floorAt (-400))).length - 401

/-- The multiple of `10^unit` that reads back, the nearer of two. -/
def onGrid? (v : Finite) (unit : Int) : Option Decimal :=
  let low : Decimal := ⟨v.floorAt unit, unit⟩
  let high : Decimal := ⟨v.floorAt unit + 1, unit⟩
  let middle : Decimal := ⟨low.digits + high.digits, unit⟩
  match v.readsBack low, v.readsBack high with
  | false, false => none
  | true, false => some low
  | false, true => some high
  | true, true =>
    match middle.compareBinary (2 * v.significand) v.exponent with
    | .gt => some low
    | .lt => some high
    | .eq => some (if low.digits % 2 = 0 then low else high)

/-- The magnitude as a decimal, with all its digits. -/
def exact (v : Finite) : Decimal :=
  if 0 ≤ v.exponent then ⟨v.significand * Nat.pow 2 v.exponent.toNat, 0⟩
  else ⟨v.significand * Nat.pow 5 (-v.exponent).toNat, v.exponent⟩

/-- **The decimal with the fewest digits that reads back** as the magnitude. -/
def shortest (v : Finite) : Decimal :=
  ((List.range 17).findSome? fun (n : Nat) => v.onGrid? (v.leadingPlace - n)).getD v.exact

end Finite

end Straightline.Binary64
