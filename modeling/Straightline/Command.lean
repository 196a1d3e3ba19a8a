import Straightline.Command.Options
import Straightline.Compilation
import Straightline.Files.Source
import Straightline.Settings.Load

/-!
# The command

The command compiles one source file, with the settings of a settings file and the options that
override them, to standard output or into a file.  What goes wrong with the settings or the source is
reported; a fault that the command does not expect, such as a directory in place of a file, ends it at
once.
-/

namespace Straightline.Command

/-- The name of the command. -/
def program : String := "yolkc"

/-- How the command is called. -/
def usage : String :=
  "usage: yolkc [-h] [--output OUTPUT] [--config CONFIG] [--no-optimize]\n" ++
  "             [--line-limit LINE_LIMIT] [--verbose]\n" ++
  "             input\n"

/-- The text that explains the command. -/
def help : String :=
  usage ++
  "\nCompile Yolk source to Yolol\n" ++
  "\npositional arguments:\n" ++
  "  input                 Yolk source file\n" ++
  "\noptions:\n" ++
  "  -h, --help            show this help message and exit\n" ++
  "  --output OUTPUT, -o OUTPUT\n" ++
  "                        Output file (default: stdout)\n" ++
  "  --config CONFIG, -c CONFIG\n" ++
  "                        JSON config file with a \"compiler\" section\n" ++
  "  --no-optimize         Skip constant folding and dead code elimination\n" ++
  "  --line-limit LINE_LIMIT\n" ++
  "                        Maximum characters per output line\n" ++
  "  --verbose, -v         Print progress to stderr\n" ++
  "\nExamples:\n" ++
  "    yolkc program.yolk                   Print the compiled program\n" ++
  "    yolkc program.yolk -o program.yolol  Write it to a file\n" ++
  "    yolkc program.yolk --no-optimize     Keep every emitted assignment\n" ++
  "        \n"

/-- What keeps the command from a compiled program. -/
inductive CommandError where
  | load (error : Settings.LoadError)
  | source (error : SourceError)
  | compile (error : CompileError)

namespace CommandError

/-- The wording of an error, if it has one. -/
def message? : CommandError → Option String
  | load error => some error.message
  | source error => some error.message
  | compile error => error.message?

/-- Whether an error is one that the command expects, and reports. -/
def isExpected : CommandError → Bool
  | load (.disk _ fault) => fault = .missing
  | source (.disk _ fault) => fault = .missing
  | compile (.refused refusal) => !refusal.fault.isMalformed
  | compile (.fold .unscalable) => false
  | compile (.fold (.misplaced _)) => false
  | compile (.misplaced _) => false
  | _ => true

end CommandError

/-- How the command ends. -/
inductive Ending where
  | exit (code : Nat)
  /-- The arguments are wrong. -/
  | misuse (error : UsageError)
  /-- An error it does not expect. -/
  | broken (error : CommandError)
  /-- The output file cannot be written. -/
  | unwritable (path : String) (fault : DiskFault)

/-- **What the command leaves behind**, files apart. -/
structure Outcome where
  stdout : String := ""
  stderr : String := ""
  ending : Ending

/-- The line that tells of wrong arguments. -/
def UsageError.line (e : UsageError) : String := s!"{program}: error: {e.message}"

/-- The outcome of an error, behind what was already told.  An error without a wording cannot be
reported. -/
def failure (told : String) (error : CommandError) : Outcome :=
  match error.isExpected, error.message? with
  | true, some message => { stderr := told ++ s!"error: {message}\n", ending := .exit 1 }
  | _, _ => { stderr := told, ending := .broken error }

namespace Options

/-- The settings with the options put over them. -/
def override (o : Options) (settings : Settings) : Except Settings.LoadError Settings := do
  let lineLimit ←
    match o.lineLimit with
    | none => pure settings.lineLimit
    | some n =>
      match Limit.ofInt? n with
      | some limit => pure limit
      | none =>
        .error (.invalid "CompilerConfig" [⟨some "line_limit", .notPositive, .integer n⟩])
  return {
    settings with
    lineLimit := lineLimit
    optimize := settings.optimize && !o.noOptimize
    verbose := settings.verbose || o.verbose }

/-- A path that is given and not empty. -/
def named? (path : Option String) : Option String := path.filter (· ≠ "")

variable {m : Type → Type} [Monad m] [Disk m]

/-- The settings that the options ask for. -/
def settings (o : Options) : m (Except Settings.LoadError Settings) := do
  match named? o.config with
  | none => return o.override Settings.standard
  | some path =>
    match ← Settings.loadSections path with
    | .error error => return .error error
    | .ok sections => return sections.settings.bind o.override

/-- Writes the code to where the options ask for it. -/
def deliver (o : Options) (told : String) (code : String) : m Outcome := do
  let text := code ++ "\n"
  match named? o.output with
  | none => return { stdout := text, stderr := told, ending := .exit 0 }
  | some output =>
    let path := (Path.ofText output).toText
    match ← Disk.writeText path text with
    | .ok _ => return { stderr := told, ending := .exit 0 }
    | .error fault => return { stderr := told, ending := .unwritable path fault }

/-- Compiles a source text with the given settings. -/
def compileText (o : Options) (settings : Settings) (text : String) : m Outcome := do
  let told (line : String) : String := if settings.verbose then line else ""
  let loading := told s!"[Load] {o.input}\n"
  match compile settings text with
  | .error error => return failure loading (.compile error)
  | .ok c =>
    let done := told s!"[Done] {c.emitted.length} -> {c.output.length} statements\n"
    o.deliver (loading ++ done) c.code

/-- Does what the options ask for. -/
def run (o : Options) : m Outcome := do
  match ← o.settings with
  | .error error => return failure "" (.load error)
  | .ok settings =>
    match ← readSource (Path.ofText o.input) with
    | .error error => return failure "" (.source error)
    | .ok text => o.compileText settings text

end Options

/-- **Runs the command.** -/
def run {m : Type → Type} [Monad m] [Disk m] (arguments : List String) : m Outcome :=
  match Options.read arguments with
  | .ok options => options.run
  | .error .help => return { stdout := help, ending := .exit 0 }
  | .error (.usage error) => return { ending := .misuse error }

end Straightline.Command
