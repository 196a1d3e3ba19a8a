import Straightline.Compilation
import Straightline.Digest
import Straightline.Files.Source
import Straightline.Json.Writer
import Straightline.Settings.Load

/-!
# Batches

A batch compiles sources from one directory into another.  Every source leaves two files: the code,
and a report in JSON.  Progress is told line by line if the settings ask for it.
-/

namespace Straightline

/-- **A report on a compiled source.** -/
structure Report where
  /-- The digest of the code. -/
  hash : String
  /-- The source as it was asked for. -/
  source : String
  sourceStmts : Nat
  emittedStmts : Nat
  outputStmts : Nat
  lines : Nat
  roots : List String
  optimized : Bool
  deriving DecidableEq, Repr

/-- A report as it is written. -/
def Report.toJson (r : Report) : Json :=
  .object [
    ("hash", .string r.hash),
    ("source", .string r.source),
    ("source_stmts", .integer r.sourceStmts),
    ("emitted_stmts", .integer r.emittedStmts),
    ("output_stmts", .integer r.outputStmts),
    ("lines", .integer r.lines),
    ("roots", .array (r.roots.map .string)),
    ("optimized", .bool r.optimized)]

/-- The report on a source compiled with the given settings. -/
def Report.of (settings : Settings) (source : String) (c : Compiled) : Report where
  hash := Digest.ofText c.code
  source := source
  sourceStmts := c.source.length
  emittedStmts := c.emitted.length
  outputStmts := c.output.length
  lines := lineCount c.code
  roots := c.roots
  optimized := settings.optimize

/-- **A batch.** -/
structure Batch where
  settings : Settings
  /-- Where the sources are. -/
  input : Path
  /-- Where the outputs go. -/
  output : Path
  deriving DecidableEq, Repr

namespace Batch

variable {m : Type → Type} [Monad m] [Disk m]

/-- Why a batch cannot be started. -/
inductive StartError where
  | load (error : Settings.LoadError)
  | disk (fault : DiskFault)

/-- Why a source of a batch has no report. -/
inductive RunError where
  | source (error : SourceError)
  | compile (error : CompileError)
  | disk (fault : DiskFault)

/-- Lines of progress, each with its line feed; none unless the settings ask for them. -/
def log (b : Batch) (lines : List String) : String :=
  if b.settings.verbose then String.join (lines.map (· ++ "\n")) else ""

/-- The line that tells of a new batch. -/
def opening (b : Batch) : String :=
  let optimize := if b.settings.optimize then "True" else "False"
  s!"[Init] Workflow initialized (line_limit={b.settings.lineLimit.value}, optimize={optimize})"

/-- The batch that the sections of a settings file describe. -/
def ofSections (s : Settings.Sections) : Except Settings.LoadError Batch := do
  let settings ← s.settings
  let directories ← s.directories
  return ⟨settings, Path.ofText directories.input, Path.ofText directories.output⟩

/-- **Starts a batch**: loads the settings file at `path` and makes the output directory. -/
def start (path : String) : m (Except StartError Batch) := do
  match (← Settings.loadSections path).bind ofSections with
  | .error error => return .error (.load error)
  | .ok b =>
    match ← Disk.makeDirectories b.output with
    | .error fault => return .error (.disk fault)
    | .ok _ => return .ok b

/-- Writes the two files of a source. -/
def save (b : Batch) (stem : String) (code : String) (report : Report) :
    m (Except DiskFault Unit) := do
  let text := if code.isEmpty then "" else code ++ "\n"
  match ← Disk.writeText (b.output.child (stem ++ ".yolol")).toText text with
  | .error fault => return .error fault
  | .ok _ => Disk.writeText (b.output.child (stem ++ ".json")).toText report.toJson.pretty

/-- **Compiles a source of a batch**: the lines of progress, and the report. -/
def run (b : Batch) (source : String) : m (List String × Except RunError Report) := do
  let path := b.input.join (Path.ofText source)
  let loading := s!"[Load] Reading {path.toText}..."
  match ← readSource path with
  | .error error => return ([loading], .error (.source error))
  | .ok text =>
    let compiling := [loading, "[Exec] Compiling..."]
    match compile b.settings text with
    | .error error => return (compiling, .error (.compile error))
    | .ok c =>
      let report := Report.of b.settings source c
      let stem := (Path.ofText source).stem
      let optimized := s!"[Opt] {report.emittedStmts} -> {report.outputStmts} statements"
      let saving := compiling ++ (if b.settings.optimize then [optimized] else [])
        ++ [s!"[Save] Writing {stem}.yolol and {stem}.json..."]
      match ← b.save stem c.code report with
      | .error fault => return (saving, .error (.disk fault))
      | .ok _ => return (saving ++ [s!"[Done] Artifacts saved to {b.output.toText}"], .ok report)

end Batch

end Straightline
