import Straightline.Number.Binary64
import Straightline.Number.Text

/-!
# Powers, roots and trigonometry

The power and the trigonometric functions pass through doubles.  A number becomes the double nearest
to it, an elementary function is applied, and the result is multiplied by the scale in doubles and
rounded, a half to the even side; an infinite result saturates.  Angles are in degrees.

`Elementary` names the functions on doubles that the surrounding platform has to supply.  Everything
else here is computed, and statements about it hold for any supply that meets their assumptions.
-/

namespace Straightline

/-- **The elementary functions on doubles.** -/
class Elementary where
  /-- `pow x y` is `x` raised to `y`. -/
  pow : Float → Float → Float
  /-- The sine of an angle in radians. -/
  sin : Float → Float
  /-- The cosine of an angle in radians. -/
  cos : Float → Float
  /-- The tangent of an angle in radians. -/
  tan : Float → Float
  /-- The angle in radians with a given sine. -/
  asin : Float → Float
  /-- The angle in radians with a given cosine. -/
  acos : Float → Float
  /-- The angle in radians with a given tangent. -/
  atan : Float → Float
  /-- An angle in radians, given in degrees. -/
  radians : Float → Float
  /-- An angle in degrees, given in radians. -/
  degrees : Float → Float

/-- The functions of the machine at hand. -/
instance Elementary.ofMachine : Elementary where
  pow := Float.pow
  sin := Float.sin
  cos := Float.cos
  tan := Float.tan
  asin := Float.asin
  acos := Float.acos
  atan := Float.atan
  radians x := x * 0.017453292519943295
  degrees x := x * 57.29577951308232

namespace Number

/-! ## Between numbers and doubles -/

/-- The double nearest to the number. -/
def toFloat (a : Number) : Float :=
  let magnitude := Float.ofScientific a.raw.natAbs true 4
  if a.raw < 0 then -magnitude else magnitude

/-- The number nearest to a double that `operator` computed.  Infinities saturate. -/
def ofFloat (operator : String) (x : Float) : Except Fault Number :=
  if x.isNaN then .error (.undefined operator "nan")
  else if x.isInf then .ok (if x > 0.0 then greatest else least)
  else
    match Binary64.round? (x * 10000.0) with
    | some n => .ok (ofRaw n)
    | none => .error .unscalable

/-! ## The operations -/

/-- The square root, rounded down to four places. -/
def sqrt (a : Number) : Except Fault Number :=
  if a.raw < 0 then .error (.undefined "sqrt" a.toText)
  else .ok (ofRaw (floorSqrt (a.raw.toNat * 10000)))

variable [Elementary]

/-- `a` raised to `b`.  Zero has no negative power and no zeroth one; a negative number has only whole
powers. -/
def pow (a b : Number) : Except Fault Number :=
  if a.raw = 0 ∧ b.raw = 0 then .error (.undefined "^" s!"{a.toText}^{b.toText}")
  else if a.raw = 0 ∧ b.raw < 0 then .error (.divisionByZero "^")
  else if a.raw < 0 ∧ b.raw % scale ≠ 0 then .error (.undefined "^" s!"{a.toText}^{b.toText}")
  else ofFloat "^" (Elementary.pow a.toFloat b.toFloat)

/-- The sine of an angle in degrees. -/
def sin (a : Number) : Except Fault Number :=
  ofFloat "sin" (Elementary.sin (Elementary.radians a.toFloat))

/-- The cosine of an angle in degrees. -/
def cos (a : Number) : Except Fault Number :=
  ofFloat "cos" (Elementary.cos (Elementary.radians a.toFloat))

/-- The tangent of an angle in degrees, undefined where the cosine is zero to four places. -/
def tan (a : Number) : Except Fault Number := do
  let c ← a.cos
  if c.raw = 0 then .error (.undefined "tan" a.toText)
  else ofFloat "tan" (Elementary.tan (Elementary.radians a.toFloat))

/-- The angle in degrees with a given sine. -/
def asin (a : Number) : Except Fault Number :=
  if scale < a.raw.natAbs then .error (.undefined "asin" a.toText)
  else ofFloat "asin" (Elementary.degrees (Elementary.asin a.toFloat))

/-- The angle in degrees with a given cosine. -/
def acos (a : Number) : Except Fault Number :=
  if scale < a.raw.natAbs then .error (.undefined "acos" a.toText)
  else ofFloat "acos" (Elementary.degrees (Elementary.acos a.toFloat))

/-- The angle in degrees with a given tangent. -/
def atan (a : Number) : Except Fault Number :=
  ofFloat "atan" (Elementary.degrees (Elementary.atan a.toFloat))

end Number

end Straightline
