import Straightline.Text.Digit
import Straightline.Text.Letter
import Straightline.Text.Quoted
import Straightline.Text.Space
import Straightline.Token

/-!
# From text to tokens

`lexeme?` splits the longest token off the front of a text; `tokenize` skips white space and comments
between tokens and ends with a token for the end of the text.  Splitting loses nothing: the token and
what is left make up the text (`lexeme?_append`), and the token is not empty (`lexeme?_ne_nil`), so
that every step shortens the text.
-/

namespace Straightline

namespace Lexer

/-- Whether a name may begin with `c`. -/
def startsName (c : Char) : Bool := Text.isLetter c || c = '_'

/-- Whether a name may go on with `c`. -/
def continuesName (c : Char) : Bool := Text.isLetter c || Text.isNumeric c || c = '_'

/-- Whether `c` followed by an equals sign is an operator. -/
def pairsWithEquals (c : Char) : Bool := c = '<' || c = '>' || c = '=' || c = '!'

/-- Whether `c` alone is an operator. -/
def isOperator (c : Char) : Bool :=
  c = '+' || c = '-' || c = '*' || c = '/' || c = '%' || c = '^' || c = '<' || c = '>'

/-- The kind of a punctuation mark. -/
def punctuation? (c : Char) : Option Token.Kind :=
  if c = '=' then some .assign
  else if c = ',' then some .comma
  else if c = ';' then some .semi
  else if c = '(' then some .lparen
  else if c = ')' then some .rparen
  else if c = '[' then some .lbracket
  else if c = ']' then some .rbracket
  else none

/-- A token split off a text: its kind, its characters, and what is left. -/
structure Lexeme where
  kind : Token.Kind
  text : List Char
  rest : List Char

/-- The numeral at the front of `cs`: digits and, behind a point, possibly more of them. -/
def numeral (cs : List Char) : Lexeme :=
  let whole := cs.takeWhile Text.isDigit
  match cs.dropWhile Text.isDigit with
  | '.' :: rest =>
    ⟨.number, whole ++ '.' :: rest.takeWhile Text.isDigit, rest.dropWhile Text.isDigit⟩
  | rest => ⟨.number, whole, rest⟩

/-- **The token at the front of a text**; `none` if no token begins there. -/
def lexeme? : List Char → Option Lexeme
  | [] => none
  | c :: rest =>
    if pairsWithEquals c && rest.head? == some '=' then some ⟨.op, [c, '='], rest.tail⟩
    else if isOperator c then some ⟨.op, [c], rest⟩
    else if let some kind := punctuation? c then some ⟨kind, [c], rest⟩
    else if Text.isDigit c then some (numeral (c :: rest))
    else if startsName c then
      some ⟨.ident, c :: rest.takeWhile continuesName, rest.dropWhile continuesName⟩
    else none

theorem numeral_append (cs : List Char) : (numeral cs).text ++ (numeral cs).rest = cs := by
  unfold numeral
  have h := List.takeWhile_append_dropWhile (p := Text.isDigit) (l := cs)
  split
  · rename_i rest hr
    rw [hr] at h
    simp only [List.append_assoc, List.cons_append, List.takeWhile_append_dropWhile]
    exact h
  · exact h

theorem numeral_ne_nil {c : Char} {rest : List Char} (h : Text.isDigit c = true) :
    (numeral (c :: rest)).text ≠ [] := by
  unfold numeral
  rw [List.takeWhile_cons_of_pos h]
  split <;> simp

/-- **Splitting loses nothing.** -/
theorem lexeme?_append {cs : List Char} {l : Lexeme} (h : lexeme? cs = some l) :
    l.text ++ l.rest = cs := by
  cases cs with
  | nil => simp [lexeme?] at h
  | cons c rest =>
    simp only [lexeme?] at h
    split at h
    · rename_i hp
      obtain rfl := Option.some.inj h
      cases rest with
      | nil => simp at hp
      | cons d rest =>
        simp only [Bool.and_eq_true, List.head?_cons, beq_iff_eq, Option.some.injEq] at hp
        simp [hp.2]
    split at h
    · obtain rfl := Option.some.inj h; rfl
    split at h
    · obtain rfl := Option.some.inj h; rfl
    split at h
    · obtain rfl := Option.some.inj h; exact numeral_append _
    split at h
    · obtain rfl := Option.some.inj h
      simp [List.takeWhile_append_dropWhile]
    · cases h

/-- **A token is never empty.** -/
theorem lexeme?_ne_nil {cs : List Char} {l : Lexeme} (h : lexeme? cs = some l) : l.text ≠ [] := by
  cases cs with
  | nil => simp [lexeme?] at h
  | cons c rest =>
    simp only [lexeme?] at h
    split at h
    · obtain rfl := Option.some.inj h; simp
    split at h
    · obtain rfl := Option.some.inj h; simp
    split at h
    · obtain rfl := Option.some.inj h; simp
    split at h
    · rename_i hd
      obtain rfl := Option.some.inj h; exact numeral_ne_nil hd
    split at h
    · obtain rfl := Option.some.inj h; simp
    · cases h

/-- What is left behind a token is shorter. -/
theorem lexeme?_rest_length_lt {cs : List Char} {l : Lexeme} (h : lexeme? cs = some l) :
    l.rest.length < cs.length := by
  have hl := congrArg List.length (lexeme?_append h)
  have hn := List.length_pos_iff.mpr (lexeme?_ne_nil h)
  rw [List.length_append] at hl
  omega

/-- Whether a comment begins here; it runs to the end of the line. -/
def startsComment : List Char → Bool
  | '/' :: '/' :: _ => true
  | _ => false

end Lexer

open Lexer

/-- A character that begins no token. -/
structure LexError where
  char : Char
  position : Position
  deriving DecidableEq, Repr

/-- The wording of a lexical error. -/
def LexError.message (e : LexError) : String :=
  s!"Unexpected character {Text.quoted e.char.toString} at {e.position.toText}"

/-- The tokens of a text that begins at `p`. -/
def Lexer.tokensFrom (p : Position) (cs : List Char) : Except LexError (List Token) :=
  match cs with
  | [] => .ok [⟨.eof, "", p⟩]
  | c :: rest =>
    if Text.isSpace c then tokensFrom (p.next c) rest
    else if startsComment (c :: rest) then
      tokensFrom (p.advance (c :: rest.takeWhile (· ≠ '\n'))) (rest.dropWhile (· ≠ '\n'))
    else
      match _h : lexeme? (c :: rest) with
      | none => .error ⟨c, p⟩
      | some l => do
        let tokens ← tokensFrom (p.advance l.text) l.rest
        return ⟨l.kind, String.ofList l.text, p⟩ :: tokens
termination_by cs.length
decreasing_by
  · simp
  · have := (List.dropWhile_sublist (p := (· ≠ '\n')) (l := rest)).length_le
    simp only [List.length_cons]
    omega
  · exact lexeme?_rest_length_lt _h

/-- **The tokens of a text**, the last of which marks its end. -/
def tokenize (s : String) : Except LexError (List Token) :=
  Lexer.tokensFrom .start s.toList

end Straightline
