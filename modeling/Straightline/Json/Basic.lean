/-!
# JSON values

Settings are read from JSON and reports are written in it.  An object is the list of its members in
the order they were given; a whole number is kept apart from one written with a fraction or an
exponent, because a setting may tell them apart.
-/

namespace Straightline

/-- **A JSON value.** -/
inductive Json where
  | null
  | bool (b : Bool)
  /-- A number written without fraction and exponent. -/
  | integer (n : Int)
  /-- The number `±digits · 10^exponent`, whose sign is kept also when it is zero. -/
  | decimal (negative : Bool) (digits : Nat) (exponent : Int)
  /-- One of the words `NaN`, `Infinity` and `-Infinity`. -/
  | nonfinite (word : String)
  | string (s : String)
  | array (items : List Json)
  | object (members : List (String × Json))
  deriving Inhabited, Repr

namespace Json

/-- Sets a member, in the place it already has or at the end. -/
def put (members : List (String × Json)) (key : String) (value : Json) : List (String × Json) :=
  match members with
  | [] => [(key, value)]
  | (k, v) :: rest => if k = key then (k, value) :: rest else (k, v) :: put rest key value

/-- The value of a member. -/
def get? : Json → String → Option Json
  | object members, key => members.lookup key
  | _, _ => none

end Json

end Straightline
