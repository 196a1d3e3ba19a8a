import Straightline.Files.Disk
import Straightline.Table

/-!
# File trees

A disk in memory: the files and directories below a current directory.  A path is walked name by name,
and every name but the last must lead to a directory.  Nothing outside the current directory is there.
-/

namespace Straightline

/-- An entry of a tree. -/
inductive Entry where
  | file (bytes : List UInt8)
  | directory
  deriving DecidableEq, Repr

/-- **A tree of files**: every file and directory under the names that lead to it. -/
structure Tree where
  entries : Table Entry := []
  deriving DecidableEq, Repr

namespace Tree

/-- The key of a place in the tree. -/
def key (place : List String) : String := "/".intercalate place

/-- What stands at a place. -/
def entry? (t : Tree) (place : List String) : Option Entry :=
  if place.isEmpty then some .directory else t.entries.get? (key place)

/-- Puts an entry at a place. -/
def put (t : Tree) (place : List String) (entry : Entry) : Tree :=
  ⟨t.entries.set (key place) entry⟩

/-- Walks from a place along names. -/
def walk (t : Tree) (place : List String) : List String → Except DiskFault (List String)
  | [] => .ok place
  | name :: rest =>
    match t.entry? place with
    | none => .error .missing
    | some (.file _) => .error .notDirectory
    | some .directory =>
      if !Path.isStep name then t.walk place rest
      else if name = ".." then
        if place.isEmpty then .error .missing else t.walk place.dropLast rest
      else t.walk (place ++ [name]) rest

/-- The place a path leads to, whether or not anything stands there. -/
def locate (t : Tree) (path : String) : Except DiskFault (List String) :=
  if path = "" || path.startsWith "/" then .error .missing else t.walk [] (Path.components path)

/-- The entry a path leads to. -/
def find (t : Tree) (path : String) : Except DiskFault Entry := do
  match t.entry? (← t.locate path) with
  | some entry => return entry
  | none => .error .missing

/-- The bytes of a file. -/
def read (t : Tree) (path : String) : Except DiskFault (List UInt8) := do
  match ← t.find path with
  | .file bytes => return bytes
  | .directory => .error .directory

/-- The tree with a file written anew. -/
def write (t : Tree) (path : String) (bytes : List UInt8) : Except DiskFault Tree := do
  let place ← t.locate path
  match t.entry? place with
  | some .directory => .error .directory
  | _ => return t.put place (.file bytes)

/-- The tree with a new directory. -/
def makeDirectory (t : Tree) (path : String) : Except DiskFault Tree := do
  let place ← t.locate path
  match t.entry? place with
  | some _ => .error .present
  | none => return t.put place .directory

/-- What a path leads to, if to anything. -/
def kind? (t : Tree) (path : String) : Option FileKind :=
  match t.find path with
  | .ok (.file _) => some .file
  | .ok .directory => some .directory
  | .error _ => none

/-- Takes over a changed tree, or reports a fault and keeps the old one. -/
def change (step : Tree → Except DiskFault Tree) : StateM Tree (Except DiskFault Unit) := do
  match step (← get) with
  | .ok t =>
    set t
    return .ok ()
  | .error fault => return .error fault

/-- A tree is a disk. -/
instance : Disk (StateM Tree) where
  read path := return (← get).read path
  write path bytes := change fun t => t.write path bytes
  makeDirectory path := change fun t => t.makeDirectory path
  kind? path := return (← get).kind? path

/-- Adds a file, with the directories above it. -/
def add (path : String) (bytes : List UInt8) : StateM Tree (Except DiskFault Unit) := do
  let p := Path.ofText path
  match ← Disk.makeDirectories { p with parts := p.parts.dropLast } with
  | .error fault => return .error fault
  | .ok _ => Disk.write p.toText bytes

end Tree

end Straightline
