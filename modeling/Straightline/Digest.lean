import Straightline.Text.Quoted

/-!
# Digests

A compile report names the code it speaks of by its SHA-256 digest.  The message is padded to whole
blocks of sixty-four bytes, each block is spread over sixty-four words, and every word stirs the eight
words of the state once.
-/

namespace Straightline.Digest

/-- The eight words of the state. -/
structure Working where
  a : UInt32
  b : UInt32
  c : UInt32
  d : UInt32
  e : UInt32
  f : UInt32
  g : UInt32
  h : UInt32
  deriving DecidableEq, Repr

/-- The state before the first block: fractions of the square roots of the first eight primes. -/
def start : Working :=
  ⟨0x6a09e667, 0xbb67ae85, 0x3c6ef372, 0xa54ff53a, 0x510e527f, 0x9b05688c, 0x1f83d9ab, 0x5be0cd19⟩

/-- One constant a round: fractions of the cube roots of the first sixty-four primes. -/
def constants : List UInt32 := [
    0x428a2f98, 0x71374491, 0xb5c0fbcf, 0xe9b5dba5, 0x3956c25b, 0x59f111f1, 0x923f82a4, 0xab1c5ed5,
    0xd807aa98, 0x12835b01, 0x243185be, 0x550c7dc3, 0x72be5d74, 0x80deb1fe, 0x9bdc06a7, 0xc19bf174,
    0xe49b69c1, 0xefbe4786, 0x0fc19dc6, 0x240ca1cc, 0x2de92c6f, 0x4a7484aa, 0x5cb0a9dc, 0x76f988da,
    0x983e5152, 0xa831c66d, 0xb00327c8, 0xbf597fc7, 0xc6e00bf3, 0xd5a79147, 0x06ca6351, 0x14292967,
    0x27b70a85, 0x2e1b2138, 0x4d2c6dfc, 0x53380d13, 0x650a7354, 0x766a0abb, 0x81c2c92e, 0x92722c85,
    0xa2bfe8a1, 0xa81a664b, 0xc24b8b70, 0xc76c51a3, 0xd192e819, 0xd6990624, 0xf40e3585, 0x106aa070,
    0x19a4c116, 0x1e376c08, 0x2748774c, 0x34b0bcb5, 0x391c0cb3, 0x4ed8aa4a, 0x5b9cca4f, 0x682e6ff3,
    0x748f82ee, 0x78a5636f, 0x84c87814, 0x8cc70208, 0x90befffa, 0xa4506ceb, 0xbef9a3f7, 0xc67178f2]

/-- The word turned right by `n` bits. -/
def rotate (x : UInt32) (n : UInt32) : UInt32 := (x >>> n) ||| (x <<< (32 - n))

/-- The next word of the schedule, from the words so far, the last one first. -/
def nextWord (earlier : List UInt32) : UInt32 :=
  let back (k : Nat) : UInt32 := earlier.getD (k - 1) 0
  let x := back 15
  let y := back 2
  let s := rotate x 7 ^^^ rotate x 18 ^^^ (x >>> 3)
  let t := rotate y 17 ^^^ rotate y 19 ^^^ (y >>> 10)
  back 16 + s + back 7 + t

/-- Adds `n` words to a schedule, whose last word stands first. -/
def extend : Nat → List UInt32 → List UInt32
  | 0, earlier => earlier
  | n + 1, earlier => extend n (nextWord earlier :: earlier)

/-- The sixty-four words of a block of sixteen. -/
def schedule (block : List UInt32) : List UInt32 := (extend 48 block.reverse).reverse

/-- Stirs one word of the schedule, with the constant of its round, into the state. -/
def stir (s : Working) (constant word : UInt32) : Working :=
  let up := rotate s.e 6 ^^^ rotate s.e 11 ^^^ rotate s.e 25
  let choice := (s.e &&& s.f) ^^^ (~~~s.e &&& s.g)
  let t := s.h + up + choice + constant + word
  let down := rotate s.a 2 ^^^ rotate s.a 13 ^^^ rotate s.a 22
  let majority := (s.a &&& s.b) ^^^ (s.a &&& s.c) ^^^ (s.b &&& s.c)
  ⟨t + (down + majority), s.a, s.b, s.c, s.d + t, s.e, s.f, s.g⟩

/-- The sum of two states, word by word. -/
def Working.add (s t : Working) : Working :=
  ⟨s.a + t.a, s.b + t.b, s.c + t.c, s.d + t.d, s.e + t.e, s.f + t.f, s.g + t.g, s.h + t.h⟩

/-- Takes a block into the state. -/
def absorb (s : Working) (block : List UInt32) : Working :=
  s.add ((constants.zip (schedule block)).foldl (fun w p => stir w p.1 p.2) s)

/-- The last `width` bytes of `n`, the most significant one first. -/
def bigEndian (width n : Nat) : List UInt8 :=
  match width with
  | 0 => []
  | w + 1 => bigEndian w (n / 256) ++ [n.toUInt8]

/-- A message padded to whole blocks: a single bit, zeros, and its length in bits. -/
def padded (message : List UInt8) : List UInt8 :=
  let n := message.length
  message ++ 0x80 :: List.replicate ((119 - n % 64) % 64) 0 ++ bigEndian 8 (8 * n)

/-- The words that four bytes each make. -/
def words : List UInt8 → List UInt32
  | a :: b :: c :: d :: rest =>
    ((a.toUInt32 <<< 24) ||| (b.toUInt32 <<< 16) ||| (c.toUInt32 <<< 8) ||| d.toUInt32) :: words rest
  | _ => []

/-- Takes the first `n` blocks of a list of words into the state. -/
def absorbAll : Nat → Working → List UInt32 → Working
  | 0, s, _ => s
  | n + 1, s, ws => absorbAll n (absorb s (ws.take 16)) (ws.drop 16)

/-- **The SHA-256 digest of a message**, as eight words. -/
def ofBytes (message : List UInt8) : List UInt32 :=
  let ws := words (padded message)
  let s := absorbAll (ws.length / 16) start ws
  [s.a, s.b, s.c, s.d, s.e, s.f, s.g, s.h]

/-- **The digest of a text** in UTF-8, in hexadecimal. -/
def ofText (s : String) : String :=
  String.ofList ((ofBytes s.toUTF8.toList).flatMap fun w => Text.Quoted.hex 8 w.toNat)

end Straightline.Digest
