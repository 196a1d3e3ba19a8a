import Straightline.Session
import Straightline.Settings
import Straightline.Source.Parser
import Straightline.Target.Layout
import Straightline.Target.Liveness

/-!
# Compilation

Compiling takes a source text all the way: it is read, lowered to assignments, optimized if the
settings ask for it, and printed.
-/

namespace Straightline

/-- Why a source text does not compile. -/
inductive CompileError where
  | read (error : ReadError)
  | refused (refusal : Refusal)
  | fold (error : Target.FoldError)
  | misplaced (found : Misplaced)

/-- The wording of a compile error, if it has one. -/
def CompileError.message? : CompileError → Option String
  | read error => some error.message
  | refused refusal => refusal.message?
  | fold error => some error.message
  | misplaced found => some found.message

/-- **A compiled program.** -/
structure Compiled where
  /-- The statements of the source. -/
  source : Source.Program
  /-- The assignments they were lowered to. -/
  emitted : List Target.Stmt
  /-- The assignments that were printed. -/
  output : List Target.Stmt
  /-- The printed text. -/
  code : String
  /-- The exported variables, in alphabetical order. -/
  roots : List String

/-- How many lines a text has. -/
def lineCount (text : String) : Nat :=
  if text.isEmpty then 0 else text.toList.count '\n' + 1

variable [Elementary]

/-- The assignments to be printed for a lowered program. -/
def Settings.finish (settings : Settings) (p : Output) : Except Target.FoldError (List Target.Stmt) :=
  if settings.optimize then
    Target.optimize (settings.passLimit.map Limit.value) p.roots p.stmts
  else
    .ok p.stmts

/-- **Compiles a source text.** -/
def compile (settings : Settings) (text : String) : Except CompileError Compiled := do
  let program ← (Source.parse text).mapError .read
  let lowered ← (lowerProgram program).mapError .refused
  let output ← (settings.finish lowered).mapError .fold
  let code ← (Target.print settings.lineLimit.value output).mapError .misplaced
  return {
    source := program
    emitted := lowered.stmts
    output := output
    code := code
    roots := lowered.roots.mergeSort fun a b => decide (a ≤ b) }

end Straightline
