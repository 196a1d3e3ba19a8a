import Straightline.Settings.Integer
import Straightline.Settings.Problem

/-!
# Settings

The settings of the compiler and the directories of a batch are sections of a JSON file.  A section
is read field by field, with some latitude: a whole number may be written as text or with a zero
fraction, a flag as a number or as a word.  What cannot be read is collected, so that one answer tells
everything that is wrong: first the declared fields in their order, then the unknown ones in the order
they were given.
-/

namespace Straightline

/-- **A limit**: a whole number above zero. -/
structure Limit where
  value : Int
  pos : 0 < value
  deriving DecidableEq, Repr

/-- The limit of the given value, if it is above zero. -/
def Limit.ofInt? (n : Int) : Option Limit := if h : 0 < n then some ⟨n, h⟩ else none

/-- **The settings of the compiler.** -/
structure Settings where
  /-- How many characters a line of the output may have. -/
  lineLimit : Limit := ⟨70, by decide⟩
  /-- Whether constants are folded and dead assignments dropped. -/
  optimize : Bool := true
  /-- Whether progress is reported. -/
  verbose : Bool := false
  /-- How often constants may be folded; as often as it takes if there is none. -/
  passLimit : Option Limit := none
  deriving DecidableEq, Repr

/-- The settings where nothing is said. -/
def Settings.standard : Settings := {}

/-- **The directories of a batch.** -/
structure Directories where
  /-- Where the sources are. -/
  input : String := "./inputs"
  /-- Where the outputs go. -/
  output : String := "./outputs"
  deriving DecidableEq, Repr

namespace Settings

/-! ## Reading values -/

/-- Reads a whole number. -/
def integer : Json → Except Complaint Int
  | .integer n => .ok n
  | .bool b => .ok (if b then 1 else 0)
  | .decimal negative digits exponent => whole (nearest negative digits exponent)
  | .nonfinite _ => .error .notFinite
  | .string s =>
    match integerOfText? s with
    | some n => .ok n
    | none => .error .integerText
  | _ => .error .notInteger

/-- Reads a limit. -/
def limit (value : Json) : Except Complaint Limit := do
  match Limit.ofInt? (← integer value) with
  | some l => return l
  | none => .error .notPositive

/-- Reads a limit that may be missing. -/
def optionalLimit : Json → Except Complaint (Option Limit)
  | .null => .ok none
  | value => (limit value).map some

/-- The words for a flag that is set. -/
def yesWords : List String := ["1", "t", "true", "y", "yes", "on"]

/-- The words for a flag that is not set. -/
def noWords : List String := ["0", "f", "false", "n", "no", "off"]

/-- The flag a whole number stands for.  Only a number of 64 bits is considered. -/
def flagOfInt (n : Int) : Except Complaint Bool :=
  if n = 1 then .ok true
  else if n = 0 then .ok false
  else if -Nat.pow 2 63 ≤ n && n < Nat.pow 2 63 then .error .flagText
  else .error .notFlag

/-- Reads a flag. -/
def flag : Json → Except Complaint Bool
  | .bool b => .ok b
  | .integer n => flagOfInt n
  | .decimal negative digits exponent =>
    match whole (nearest negative digits exponent) with
    | .ok n => flagOfInt n
    | .error _ => .error .notFlag
  | .string s =>
    let word := s.toLower
    if yesWords.contains word then .ok true
    else if noWords.contains word then .ok false
    else .error .flagText
  | _ => .error .notFlag

/-- Reads a text. -/
def text : Json → Except Complaint String
  | .string s => .ok s
  | _ => .error .notText

/-! ## Reading sections -/

/-- Reads the field `key`, which has a default. -/
def field {α : Type} (members : List (String × Json)) (key : String)
    (read : Json → Except Complaint α) (default : α) : Except Problem α :=
  match members.lookup key with
  | none => .ok default
  | some value => (read value).mapError fun complaint => ⟨some key, complaint, value⟩

/-- The problem of a field, if it has one. -/
def problem {α : Type} : Except Problem α → List Problem
  | .ok _ => []
  | .error p => [p]

/-- The problems of the fields that are not declared. -/
def unknown (declared : List String) (members : List (String × Json)) : List Problem :=
  (members.filter fun m => !declared.contains m.1).map fun m => ⟨some m.1, .unknownKey, m.2⟩

/-- The keys of the compiler's section. -/
def keys : List String := ["line_limit", "optimize", "verbose", "max_fold_iterations"]

/-- **Reads the compiler's section.** -/
def read : Json → Except (List Problem) Settings
  | .object members =>
    let lineLimit := field members "line_limit" limit standard.lineLimit
    let optimize := field members "optimize" flag standard.optimize
    let verbose := field members "verbose" flag standard.verbose
    let passLimit := field members "max_fold_iterations" optionalLimit standard.passLimit
    match lineLimit, optimize, verbose, passLimit, unknown keys members with
    | .ok lineLimit, .ok optimize, .ok verbose, .ok passLimit, [] =>
      .ok ⟨lineLimit, optimize, verbose, passLimit⟩
    | _, _, _, _, others =>
      .error (problem lineLimit ++ problem optimize ++ problem verbose ++ problem passLimit ++ others)
  | value => .error [⟨none, .notSection, value⟩]

end Settings

namespace Directories

/-- **Reads the section of a batch's directories.** -/
def read : Json → Except (List Settings.Problem) Directories
  | .object members =>
    let input := Settings.field members "input" Settings.text ({} : Directories).input
    let output := Settings.field members "output" Settings.text ({} : Directories).output
    match input, output, Settings.unknown ["input", "output"] members with
    | .ok input, .ok output, [] => .ok ⟨input, output⟩
    | _, _, others => .error (Settings.problem input ++ Settings.problem output ++ others)
  | value => .error [⟨none, .notSection, value⟩]

end Directories

end Straightline
