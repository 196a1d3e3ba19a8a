import Straightline.Json.Basic
import Straightline.Number.Shortest
import Straightline.Text.Quoted

/-!
# Problems with settings

A value that is refused as a setting is reported with its key, the reason, and what was found: the
beginning and the end of its text, and the kind of value it is.
-/

namespace Straightline.Settings

/-- Why a value is no setting. -/
inductive Complaint where
  | notSection
  | notInteger
  | integerText
  | fractional
  | notFinite
  | outOfRange
  | notPositive
  | notFlag
  | flagText
  | notText
  | unknownKey
  deriving DecidableEq, Repr

namespace Complaint

/-- The short name of a complaint. -/
def code : Complaint → String
  | notSection => "model_type"
  | notInteger => "int_type"
  | integerText => "int_parsing"
  | fractional => "int_from_float"
  | notFinite => "finite_number"
  | outOfRange => "int_parsing_size"
  | notPositive => "greater_than"
  | notFlag => "bool_type"
  | flagText => "bool_parsing"
  | notText => "string_type"
  | unknownKey => "extra_forbidden"

/-- The wording of a complaint about the section `name`. -/
def message (name : String) : Complaint → String
  | notSection => s!"Input should be a valid dictionary or instance of {name}"
  | notInteger => "Input should be a valid integer"
  | integerText => "Input should be a valid integer, unable to parse string as an integer"
  | fractional => "Input should be a valid integer, got a number with a fractional part"
  | notFinite => "Input should be a finite number"
  | outOfRange => "Unable to parse input string as an integer, exceeded maximum size"
  | notPositive => "Input should be greater than 0"
  | notFlag => "Input should be a valid boolean"
  | flagText => "Input should be a valid boolean, unable to interpret input"
  | notText => "Input should be a valid string"
  | unknownKey => "Extra inputs are not permitted"

end Complaint

/-- **A refused value**: its key, or none if it is the section itself, and what is wrong with it. -/
structure Problem where
  key : Option String
  complaint : Complaint
  value : Json

/-- The number `±digits · 10^exponent` as the nearest double. -/
def nearest (negative : Bool) (digits : Nat) (exponent : Int) : Float :=
  let x := Float.ofScientific digits (decide (exponent < 0)) exponent.natAbs
  if negative then -x else x

/-- The whole number a double is.  Beyond 63 bits a double is refused: not every whole number has one
of its own there. -/
def whole (x : Float) : Except Complaint Int :=
  match Binary64.decode? x with
  | none => .error .notFinite
  | some v =>
    match v.integer? with
    | none => .error .fractional
    | some n => if n.natAbs < Nat.pow 2 63 then .ok n else .error .outOfRange

/-- How many characters of a refused value are shown. -/
def shownLimit : Nat := 50

/-- A long text without its middle. -/
def shorten (cs : List Char) : List Char :=
  if cs.length ≤ shownLimit then cs
  else cs.take 25 ++ "...".toList ++ cs.drop (cs.length - 24)

/-- The digits of a decimal, where the point stands behind the first `point` of them: in place if it
is near them, or else behind the first digit and with an exponent. -/
def layout (digits : List Char) (point : Int) : List Char :=
  if -4 < point && point ≤ 16 then
    let lead := if point ≤ 0 then '0' :: List.replicate (-point).toNat '0' else []
    let shift := if point ≤ 0 then 1 else point.toNat
    let row := lead ++ digits ++ List.replicate (shift + 1 - (lead.length + digits.length)) '0'
    row.take shift ++ '.' :: row.drop shift
  else
    let power := (point - 1).natAbs
    let fraction := if digits.length ≤ 1 then [] else '.' :: digits.drop 1
    let sign := if point < 1 then '-' else '+'
    digits.take 1 ++ fraction ++ 'e' :: sign :: (if power < 10 then ['0'] else []) ++ Nat.toDigits 10 power

/-- A double, as it is shown: in the fewest digits that read back. -/
def doubleText (x : Float) : String :=
  match Binary64.decode? x with
  | none => if x < 0 then "-inf" else "inf"
  | some v =>
    let d := v.shortest
    let digits := Nat.toDigits 10 d.digits
    let point := digits.length + d.exponent
    let significant := (digits.reverse.dropWhile (· = '0')).reverse
    let magnitude := if v.significand = 0 then ['0', '.', '0'] else layout significant point
    String.ofList (if v.negative then '-' :: magnitude else magnitude)

mutual

/-- A value, as it is shown in a complaint. -/
def shown : Json → String
  | .null => "None"
  | .bool b => if b then "True" else "False"
  | .integer n => toString n
  | .decimal negative digits exponent => doubleText (nearest negative digits exponent)
  | .nonfinite word => if word = "NaN" then "nan" else if word = "Infinity" then "inf" else "-inf"
  | .string s => Text.quoted s
  | .array items => "[" ++ ", ".intercalate (shownItems items) ++ "]"
  | .object members => "\x7b" ++ ", ".intercalate (shownMembers members) ++ "\x7d"

/-- The items of an array, as they are shown. -/
def shownItems : List Json → List String
  | [] => []
  | item :: rest => shown item :: shownItems rest

/-- The members of an object, as they are shown. -/
def shownMembers : List (String × Json) → List String
  | [] => []
  | (key, value) :: rest => (Text.quoted key ++ ": " ++ shown value) :: shownMembers rest

end

/-- The name of a value's type. -/
def typeName : Json → String
  | .null => "NoneType"
  | .bool _ => "bool"
  | .integer _ => "int"
  | .decimal _ _ _ => "float"
  | .nonfinite _ => "float"
  | .string _ => "str"
  | .array _ => "list"
  | .object _ => "dict"

/-- The lines that describe a problem of the section `name`. -/
def Problem.lines (name : String) (p : Problem) : List String :=
  let wording := p.complaint.message name
  let code := p.complaint.code
  let value := String.ofList (shorten (shown p.value).toList)
  let kind := typeName p.value
  let line := s!"  {wording} [type={code}, input_value={value}, input_type={kind}]"
  match p.key with
  | some key => [key, line]
  | none => [line]

/-- **The message for the problems of a section.** -/
def problemsMessage (name : String) (problems : List Problem) : String :=
  let count := problems.length
  let errors := if count = 1 then "error" else "errors"
  "\n".intercalate (s!"{count} validation {errors} for {name}" :: problems.flatMap (Problem.lines name))

end Straightline.Settings
