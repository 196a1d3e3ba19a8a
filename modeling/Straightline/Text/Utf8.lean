import Straightline.Text.Quoted

/-!
# UTF-8

Files hold bytes; a program is text.  A character of UTF-8 is a lead byte with the continuation bytes
it asks for.  Overlong forms, surrogates and codes past the last character are ruled out by the byte
after the lead.  A fault names the longest beginning of a character that was found, and where.
-/

namespace Straightline.Text.Utf8

/-- What is wrong with a sequence of bytes. -/
inductive Reason where
  | start
  | continuation
  | truncated
  deriving DecidableEq, Repr

/-- The wording of a reason. -/
def Reason.message : Reason → String
  | .start => "invalid start byte"
  | .continuation => "invalid continuation byte"
  | .truncated => "unexpected end of data"

/-- **Bytes that are no character**: where they begin, the first of them, and how many follow it. -/
structure Fault where
  reason : Reason
  position : Nat
  first : UInt8
  more : Nat
  deriving DecidableEq, Repr

/-- The message of a fault. -/
def Fault.message (f : Fault) : String :=
  let place :=
    if f.more = 0 then
      let byte := String.ofList (Quoted.hex 2 f.first.toNat)
      s!"byte 0x{byte} in position {f.position}"
    else
      s!"bytes in position {f.position}-{f.position + f.more}"
  s!"'utf-8' codec can't decode {place}: {f.reason.message}"

/-- How many continuation bytes a lead byte asks for. -/
def tail? (lead : UInt8) : Option Nat :=
  if lead < 0x80 then some 0
  else if lead < 0xC2 then none
  else if lead < 0xE0 then some 1
  else if lead < 0xF0 then some 2
  else if lead < 0xF5 then some 3
  else none

/-- Whether a byte continues a character. -/
def isContinuation (b : UInt8) : Bool := 0x80 ≤ b && b < 0xC0

/-- Whether a byte may stand right after a lead byte. -/
def follows (lead b : UInt8) : Bool :=
  isContinuation b &&
    (if lead = 0xE0 then 0xA0 ≤ b
    else if lead = 0xED then b < 0xA0
    else if lead = 0xF0 then 0x90 ≤ b
    else if lead = 0xF4 then b < 0x90
    else true)

/-- The bytes that continue the character begun by a lead byte, as far as they do. -/
def accepted (lead : UInt8) : List UInt8 → List UInt8
  | [] => []
  | b :: rest => if follows lead b then b :: rest.takeWhile isContinuation else []

/-- The code of a character with the given continuation bytes. -/
def code (lead : UInt8) (tail : List UInt8) : Nat :=
  let top := if tail = [] then lead.toNat else lead.toNat % Nat.pow 2 (6 - tail.length)
  tail.foldl (fun n b => 64 * n + b.toNat % 64) top

/-- Decodes the bytes from a position on. -/
def decodeFrom (position : Nat) : List UInt8 → Except Fault (List Char)
  | [] => .ok []
  | lead :: rest =>
    match tail? lead with
    | none => .error ⟨.start, position, lead, 0⟩
    | some n =>
      let tail := accepted lead (rest.take n)
      if tail.length = n then do
        let chars ← decodeFrom (position + 1 + n) (rest.drop n)
        return Char.ofNat (code lead tail) :: chars
      else if tail.length = rest.length then
        .error ⟨.truncated, position, lead, tail.length⟩
      else
        .error ⟨.continuation, position, lead, tail.length⟩
termination_by bytes => bytes.length
decreasing_by simp only [List.length_cons, List.length_drop]; omega

/-- **The text that bytes encode.** -/
def decode (bytes : List UInt8) : Except Fault String :=
  (decodeFrom 0 bytes).map String.ofList

/-- **The bytes of a text.** -/
def encode (s : String) : List UInt8 := s.toUTF8.toList

end Straightline.Text.Utf8
