import Straightline.Files.Path
import Straightline.Text.Utf8

/-!
# Disks

The few things the compiler asks of a file system, as a class of effects: a program over a disk runs
against real files and against a tree of files in memory alike.  Every operation answers with a fault
where it cannot be done.
-/

namespace Straightline

/-- Why a file operation cannot be done. -/
inductive DiskFault where
  | missing
  | directory
  | notDirectory
  | present
  /-- Any other reason, in the words of the system. -/
  | other (reason : String)
  deriving DecidableEq, Repr

/-- The wording of a fault at a path. -/
def DiskFault.message (path : String) : DiskFault → String
  | .missing => s!"[Errno 2] No such file or directory: {Text.quoted path}"
  | .directory => s!"[Errno 21] Is a directory: {Text.quoted path}"
  | .notDirectory => s!"[Errno 20] Not a directory: {Text.quoted path}"
  | .present => s!"[Errno 17] File exists: {Text.quoted path}"
  | .other reason => reason

/-- What a path leads to. -/
inductive FileKind where
  | file
  | directory
  deriving DecidableEq, Repr

/-- **A disk**: the operations on files and directories that `m` offers. -/
class Disk (m : Type → Type) where
  /-- The bytes of a file. -/
  read : String → m (Except DiskFault (List UInt8))
  /-- Writes a file anew. -/
  write : String → List UInt8 → m (Except DiskFault Unit)
  /-- Makes a directory in a directory that is there. -/
  makeDirectory : String → m (Except DiskFault Unit)
  /-- What a path leads to, if to anything. -/
  kind? : String → m (Option FileKind)

/-- Why a text cannot be read from a file. -/
inductive TextFault where
  | disk (fault : DiskFault)
  | encoding (fault : Text.Utf8.Fault)
  deriving DecidableEq, Repr

namespace Disk

variable {m : Type → Type} [Monad m] [Disk m]

/-- A text in which every line ends with a line feed: a carriage return ends a line too, alone or
before a line feed. -/
def unifyLines : List Char → List Char
  | [] => []
  | '\r' :: '\n' :: rest => '\n' :: unifyLines rest
  | c :: rest => (if c = '\r' then '\n' else c) :: unifyLines rest

/-- The text that the bytes of a file hold. -/
def textOf (bytes : List UInt8) : Except Text.Utf8.Fault String :=
  (Text.Utf8.decode bytes).map fun s => String.ofList (unifyLines s.toList)

/-- **Reads a text file.** -/
def readText (path : String) : m (Except TextFault String) := do
  match ← Disk.read path with
  | .error fault => return .error (.disk fault)
  | .ok bytes => return (textOf bytes).mapError .encoding

/-- **Writes a text file.** -/
def writeText (path text : String) : m (Except DiskFault Unit) :=
  Disk.write path (Text.Utf8.encode text)

/-- A directory that could not be made is fine if it is there. -/
def settleDirectory (path : String) : Except DiskFault Unit → m (Except DiskFault Unit)
  | .ok _ => return .ok ()
  | .error fault => do
    if (← Disk.kind? path) = some .directory then return .ok () else return .error fault

/-- Makes the directory with the given names, the last one first, and what is missing above it. -/
def makeReversed (root : String) : List String → m (Except DiskFault Unit)
  | [] => do
    let path := (Path.mk root []).toText
    settleDirectory path (← Disk.makeDirectory path)
  | name :: above => do
    let path := (Path.mk root (name :: above).reverse).toText
    match ← Disk.makeDirectory path with
    | .error .missing =>
      match ← makeReversed root above with
      | .error fault => return .error fault
      | .ok _ => settleDirectory path (← Disk.makeDirectory path)
    | made => settleDirectory path made

/-- **Makes a directory** and what is missing above it; it may be there already. -/
def makeDirectories (p : Path) : m (Except DiskFault Unit) := makeReversed p.root p.parts.reverse

end Disk

end Straightline
