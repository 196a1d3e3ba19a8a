import Straightline.Files.Disk

/-!
# Source files

A source is looked for before it is read, so that one that is not there is told apart from one that
cannot be read.
-/

namespace Straightline

/-- Why a source cannot be read. -/
inductive SourceError where
  | notFound (path : Path)
  | disk (path : Path) (fault : DiskFault)
  | encoding (fault : Text.Utf8.Fault)

/-- The wording of a source error. -/
def SourceError.message : SourceError → String
  | notFound path => s!"Yolk source not found: {path.toText}"
  | disk path fault => fault.message path.toText
  | encoding fault => fault.message

/-- **Reads a source file.** -/
def readSource {m : Type → Type} [Monad m] [Disk m] (path : Path) :
    m (Except SourceError String) := do
  match ← Disk.kind? path.toText with
  | none => return .error (.notFound path)
  | some _ =>
    match ← Disk.readText path.toText with
    | .ok text => return .ok text
    | .error (.disk fault) => return .error (.disk path fault)
    | .error (.encoding fault) => return .error (.encoding fault)

end Straightline
