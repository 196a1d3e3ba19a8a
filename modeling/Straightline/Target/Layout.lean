import Straightline.Target.Printer

/-!
# Line packing

The statements of a program are packed onto lines of limited length: each line takes as many
statements, parted by single blanks, as fit, and a statement too long for any line has one to itself.
Lengths count characters.
-/

namespace Straightline.Target

namespace Layout

/-- The usual limit. -/
def defaultLimit : Int := 70

/-- Packs `texts` behind a line that already holds the texts of `line`, the last one first, and is
`width` characters long. -/
def packAfter (limit : Int) (line : List (List Char)) (width : Nat) :
    List (List Char) → List (List (List Char))
  | [] => [line.reverse]
  | text :: rest =>
    if limit < width + 1 + text.length then
      line.reverse :: packAfter limit [text] text.length rest
    else
      packAfter limit (text :: line) (width + 1 + text.length) rest

/-- **Divides texts into lines** of at most `limit` characters, as long as a line holds more than one
text. -/
def pack (limit : Int) : List (List Char) → List (List (List Char))
  | [] => []
  | text :: rest => packAfter limit [text] text.length rest

/-- The text of a line. -/
def lineText (line : List (List Char)) : List Char := [' '].intercalate line

theorem lineText_singleton (text : List Char) : lineText [text] = text := by
  simp [lineText]

theorem lineText_cons (text : List Char) {line : List (List Char)} (h : line ≠ []) :
    lineText (text :: line) = text ++ ' ' :: lineText line := by
  cases line with
  | nil => exact absurd rfl h
  | cons next line => simp [lineText, List.intercalate_cons_cons]

/-- The text of several lines. -/
def linesText (lines : List (List (List Char))) : List Char := ['\n'].intercalate (lines.map lineText)

end Layout

/-- **The text of a program**, packed onto lines of at most `limit` characters. -/
def print (limit : Int) (stmts : List Stmt) : Except Misplaced String := do
  let texts ← stmts.mapM Stmt.print
  return String.ofList (Layout.linesText (Layout.pack limit texts))

end Straightline.Target
