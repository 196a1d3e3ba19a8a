/-!
# Paths

A path is a list of names below the current directory or below the root.  Empty names and single dots
mean nothing and are dropped, so `./in//sub/` and `in/sub` are one path; double dots are kept, because
what they mean depends on the files.
-/

namespace Straightline

/-- **A path.** -/
structure Path where
  /-- The slashes an absolute path begins with. -/
  root : String := ""
  parts : List String := []
  deriving DecidableEq, Repr

namespace Path

/-- The texts between the slashes. -/
def split : List Char → List (List Char)
  | [] => [[]]
  | c :: cs =>
    if c = '/' then [] :: split cs
    else
      match split cs with
      | [] => [[c]]
      | part :: parts => (c :: part) :: parts

/-- The names between the slashes of a text, empty ones included. -/
def components (s : String) : List String := (split s.toList).map String.ofList

/-- Whether a name in a path says where to go. -/
def isStep (name : String) : Bool := name ≠ "" && name ≠ "."

/-- The root that a text begins with: two slashes are kept apart, more than two are one. -/
def rootOf (s : String) : String :=
  match (s.toList.takeWhile (· = '/')).length with
  | 0 => ""
  | 2 => "//"
  | _ => "/"

/-- **The path a text names.** -/
def ofText (s : String) : Path := ⟨rootOf s, (components s).filter isStep⟩

/-- **The text of a path.** -/
def toText (p : Path) : String :=
  if p.root = "" && p.parts.isEmpty then "." else p.root ++ "/".intercalate p.parts

/-- The path `q`, seen from `p`. -/
def join (p q : Path) : Path := if q.root = "" then { p with parts := p.parts ++ q.parts } else q

/-- The path of a file in the directory `p`. -/
def child (p : Path) (name : String) : Path := { p with parts := p.parts ++ [name] }

/-- The last name of a path. -/
def name (p : Path) : String := p.parts.getLast?.getD ""

/-- The last name of a path without its suffix.  A dot at either end of a name parts no suffix. -/
def stem (p : Path) : String :=
  let cs := p.name.toList
  let suffix := cs.reverse.takeWhile (· ≠ '.')
  let before := cs.take (cs.length - suffix.length - 1)
  if suffix.isEmpty || before.isEmpty then p.name else String.ofList before

end Path

end Straightline
