import Straightline.Command

/-!
# The program

The command, run against the files of the machine.
-/

namespace Straightline.Machine

/-- Why a file operation of the machine failed. -/
def fault (directory : Bool) : IO.Error → DiskFault
  | .noFileOrDirectory .. => .missing
  | .alreadyExists .. => .present
  | .inappropriateType .. => if directory then .directory else .notDirectory
  | error => if directory then .directory else .other (toString error)

/-- Does a file operation at a path. -/
def attempt {α : Type} (path : String) (action : IO α) : IO (Except DiskFault α) := do
  match ← action.toBaseIO with
  | .ok value => return .ok value
  | .error error => return .error (fault (← (System.mkFilePath [path]).isDir) error)

/-- What a path leads to, if to anything. -/
def kind? (path : String) : IO (Option FileKind) := do
  let place := System.mkFilePath [path]
  if ← place.isDir then return some .directory
  else if ← place.pathExists then return some .file
  else return none

/-- The machine's files are a disk. -/
instance : Disk IO where
  read path := attempt path do return (← IO.FS.readBinFile path).toList
  write path bytes := attempt path (IO.FS.writeBinFile path ⟨bytes.toArray⟩)
  makeDirectory path := attempt path (IO.FS.createDir path)
  kind? := kind?

/-- Tells how the command ended, and gives its exit code. -/
def conclude : Command.Ending → IO UInt32
  | .exit code => return code.toUInt32
  | .misuse error => do
    IO.eprint (Command.usage ++ error.line ++ "\n")
    return 2
  | .broken error => do
    IO.eprintln (error.message?.getD "")
    return 1
  | .unwritable path fault => do
    IO.eprintln (fault.message path)
    return 1

end Straightline.Machine

/-- Runs the command with the given arguments. -/
def main (arguments : List String) : IO UInt32 := do
  let outcome ← Straightline.Command.run (m := IO) arguments
  IO.print outcome.stdout
  IO.eprint outcome.stderr
  Straightline.Machine.conclude outcome.ending
