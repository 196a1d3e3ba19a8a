import Straightline.Json.Basic

/-!
# Reading JSON

A reader of JSON texts that also takes the words `NaN`, `Infinity` and `-Infinity`.  Of two members
with one name the later counts.  A text that is no JSON is refused with the place of the first
problem, counted in characters.

`value`, `members` and `elements` take a bound on the nesting of their calls; `Json.read` gives them
two for every character, more than any text can use up.
-/

namespace Straightline.Json

/-- Why a text is no JSON. -/
inductive Reason where
  | value
  | name
  | colon
  | comma
  | extra
  | control
  | unterminated
  | escape
  | code
  | mark
  deriving DecidableEq, Repr

/-- The wording of a reason. -/
def Reason.message : Reason → String
  | .value => "Expecting value"
  | .name => "Expecting property name enclosed in double quotes"
  | .colon => "Expecting ':' delimiter"
  | .comma => "Expecting ',' delimiter"
  | .extra => "Extra data"
  | .control => "Invalid control character at"
  | .unterminated => "Unterminated string starting at"
  | .escape => "Invalid \\escape"
  | .code => "Invalid \\uXXXX escape"
  | .mark => "Unexpected UTF-8 BOM (decode using utf-8-sig)"

namespace Reader

/-- A problem, with the number of characters from its place to the end of the text. -/
structure Problem where
  reason : Reason
  left : Nat

/-- Skips blanks. -/
def skip (cs : List Char) : List Char :=
  cs.dropWhile fun c => c = ' ' || c = '\t' || c = '\n' || c = '\r'

/-- The value of a hexadecimal digit. -/
def hexDigit? (c : Char) : Option Nat :=
  if c.isDigit then some (c.toNat - 48)
  else if 'a' ≤ c && c ≤ 'f' then some (c.toNat - 87)
  else if 'A' ≤ c && c ≤ 'F' then some (c.toNat - 55)
  else none

/-- The code that four hexadecimal digits spell. -/
def hexCode? (a b c d : Char) : Option Nat := do
  let w ← hexDigit? a
  let x ← hexDigit? b
  let y ← hexDigit? c
  let z ← hexDigit? d
  return ((w * 16 + x) * 16 + y) * 16 + z

/-- The characters with the given codes.  A high and a low surrogate side by side make one character;
one that stands alone becomes the replacement character. -/
def joinSurrogates : List Nat → List Char
  | [] => []
  | n :: rest =>
    if 0xD800 ≤ n && n ≤ 0xDFFF then
      match rest with
      | m :: rest =>
        if n ≤ 0xDBFF && 0xDC00 ≤ m && m ≤ 0xDFFF then
          Char.ofNat (0x10000 + (n - 0xD800) * 0x400 + (m - 0xDC00)) :: joinSurrogates rest
        else
          '\ufffd' :: joinSurrogates (m :: rest)
      | [] => ['\ufffd']
    else
      Char.ofNat n :: joinSurrogates rest

/-- The character that a letter behind a backslash stands for. -/
def escaped? (c : Char) : Option Char :=
  if c = '"' || c = '\\' || c = '/' then some c
  else if c = 'b' then some (Char.ofNat 8)
  else if c = 'f' then some (Char.ofNat 12)
  else if c = 'n' then some '\n'
  else if c = 'r' then some '\r'
  else if c = 't' then some '\t'
  else none

/-- The codes of the rest of a string, up to its closing quote.  `opening` is the number of characters
from the opening quote to the end of the text. -/
def codes (opening : Nat) : List Char → Except Problem (List Nat × List Char)
  | [] => .error ⟨.unterminated, opening⟩
  | '"' :: rest => .ok ([], rest)
  | '\\' :: 'u' :: a :: b :: c :: d :: e :: rest =>
    match hexCode? a b c d with
    | none => .error ⟨.code, rest.length + 6⟩
    | some n => (codes opening (e :: rest)).map fun r => (n :: r.1, r.2)
  | '\\' :: 'u' :: rest => .error ⟨.code, rest.length + 1⟩
  | ['\\'] => .error ⟨.unterminated, opening⟩
  | '\\' :: c :: rest =>
    match escaped? c with
    | none => .error ⟨.escape, rest.length + 2⟩
    | some x => (codes opening rest).map fun r => (x.toNat :: r.1, r.2)
  | c :: rest =>
    if c.toNat < 32 then .error ⟨.control, rest.length + 1⟩
    else (codes opening rest).map fun r => (c.toNat :: r.1, r.2)

/-- A string, from behind its opening quote. -/
def string (cs : List Char) : Except Problem (String × List Char) :=
  (codes (cs.length + 1) cs).map fun r => (String.ofList (joinSurrogates r.1), r.2)

/-- The natural number that a row of digits spells. -/
def natOfDigits (cs : List Char) : Nat := cs.foldl (fun n c => 10 * n + (c.toNat - 48)) 0

/-- The digits of a fraction, if one begins here. -/
def fraction (cs : List Char) : List Char × List Char :=
  match cs with
  | '.' :: rest =>
    if (rest.takeWhile Char.isDigit).isEmpty then ([], cs) else rest.span Char.isDigit
  | _ => ([], cs)

/-- The value of an exponent, if one begins here. -/
def exponent (cs : List Char) : Option Int × List Char :=
  let digits (negative : Bool) (rest : List Char) : Option Int × List Char :=
    match rest.span Char.isDigit with
    | ([], _) => (none, cs)
    | (ds, after) => (some (if negative then -(natOfDigits ds : Int) else natOfDigits ds), after)
  match cs with
  | c :: '-' :: rest => if c = 'e' || c = 'E' then digits true rest else (none, cs)
  | c :: '+' :: rest => if c = 'e' || c = 'E' then digits false rest else (none, cs)
  | c :: rest => if c = 'e' || c = 'E' then digits false rest else (none, cs)
  | [] => (none, cs)

/-- An unsigned number. -/
def magnitude? (negative : Bool) (cs : List Char) : Option (Json × List Char) :=
  let whole : List Char × List Char :=
    match cs with
    | '0' :: rest => (['0'], rest)
    | _ => cs.span Char.isDigit
  if whole.1.isEmpty then none
  else
    let decimals := fraction whole.2
    let power := exponent decimals.2
    if decimals.1.isEmpty && power.1.isNone then
      let n := natOfDigits whole.1
      some (integer (if negative then -(n : Int) else n), power.2)
    else
      some (decimal negative (natOfDigits (whole.1 ++ decimals.1))
        (power.1.getD 0 - decimals.1.length), power.2)

/-- A number. -/
def number? (cs : List Char) : Option (Json × List Char) :=
  match cs with
  | '-' :: rest => magnitude? true rest
  | _ => magnitude? false cs

/-- The words that are values. -/
def words : List (String × Json) :=
  [("null", null), ("true", bool true), ("false", bool false), ("NaN", nonfinite "NaN"),
    ("Infinity", nonfinite "Infinity"), ("-Infinity", nonfinite "-Infinity")]

/-- A word that is a value. -/
def word? (cs : List Char) : Option (Json × List Char) :=
  words.findSome? fun (w, v) =>
    if w.toList.isPrefixOf cs then some (v, cs.drop w.length) else none

mutual

/-- A value. -/
def value : Nat → List Char → Except Problem (Json × List Char)
  | 0, cs => .error ⟨.value, cs.length⟩
  | n + 1, cs =>
    match cs with
    | '"' :: rest => do
      let (s, rest) ← string rest
      return (.string s, rest)
    | '\x7b' :: rest =>
      match skip rest with
      | '\x7d' :: rest => .ok (object [], rest)
      | rest => do
        let (ms, rest) ← members n rest
        return (object (ms.foldl (fun acc m => put acc m.1 m.2) []), rest)
    | '[' :: rest =>
      match skip rest with
      | ']' :: rest => .ok (array [], rest)
      | rest => do
        let (items, rest) ← elements n rest
        return (array items, rest)
    | _ =>
      match (word? cs).or (number? cs) with
      | some found => .ok found
      | none => .error ⟨.value, cs.length⟩

/-- The members of an object, from the name of the first to the closing brace. -/
def members : Nat → List Char → Except Problem (List (String × Json) × List Char)
  | 0, cs => .error ⟨.value, cs.length⟩
  | n + 1, cs =>
    match cs with
    | '"' :: rest => do
      let (key, rest) ← string rest
      match skip rest with
      | ':' :: rest => do
        let (v, rest) ← value n (skip rest)
        match skip rest with
        | '\x7d' :: rest => return ([(key, v)], rest)
        | ',' :: rest => do
          let (more, rest) ← members n (skip rest)
          return ((key, v) :: more, rest)
        | rest => .error ⟨.comma, rest.length⟩
      | rest => .error ⟨.colon, rest.length⟩
    | rest => .error ⟨.name, rest.length⟩

/-- The items of an array, from the first to the closing bracket. -/
def elements : Nat → List Char → Except Problem (List Json × List Char)
  | 0, cs => .error ⟨.value, cs.length⟩
  | n + 1, cs => do
    let (v, rest) ← value n cs
    match skip rest with
    | ']' :: rest => return ([v], rest)
    | ',' :: rest => do
      let (more, rest) ← elements n (skip rest)
      return (v :: more, rest)
    | rest => .error ⟨.comma, rest.length⟩

end

/-- A whole text: one value between blanks. -/
def document (cs : List Char) : Except Problem Json :=
  match cs with
  | '\ufeff' :: _ => .error ⟨.mark, cs.length⟩
  | _ => do
    let (v, rest) ← value (2 * cs.length + 2) (skip cs)
    match skip rest with
    | [] => return v
    | rest => .error ⟨.extra, rest.length⟩

end Reader

/-- A text that is no JSON: the reason, and the line, column and offset of the problem. -/
structure ReadError where
  reason : Reason
  line : Nat
  column : Nat
  offset : Nat
  deriving DecidableEq, Repr

/-- The wording of a read error. -/
def ReadError.message (e : ReadError) : String :=
  s!"{e.reason.message}: line {e.line} column {e.column} (char {e.offset})"

/-- **Reads a JSON text.** -/
def read (s : String) : Except ReadError Json :=
  let cs := s.toList
  (Reader.document cs).mapError fun p =>
    let offset := cs.length - p.left
    let before := cs.take offset
    { reason := p.reason
      line := before.count '\n' + 1
      column := (before.reverse.takeWhile (· ≠ '\n')).length + 1
      offset := offset }

end Straightline.Json
