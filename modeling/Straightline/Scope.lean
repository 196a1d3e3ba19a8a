import Straightline.Definition
import Straightline.Graph
import Straightline.Text.Casing

/-!
# Names in use

A scope records the imported and bound variables, the functions, and what is exported.  The target
language does not tell names apart by case, so every name that is bound or emitted is entered under
its lower case together with its spelling, and no other spelling of it is accepted.
-/

namespace Straightline

/-- **The names in use.** -/
structure Scope where
  /-- The words that cannot be bound. -/
  keywords : List String := Straightline.keywords
  imports : List String := []
  bindings : Table Value := []
  functions : Table Definition := []
  exports : List String := []
  /-- The target variables that are exported. -/
  roots : List String := []
  /-- The spelling of each name in use, under its lower case. -/
  spellings : Table String := []
  deriving DecidableEq

namespace Scope

/-- The value of a variable. -/
def valueOf (s : Scope) (name : String) : Except Fault Value :=
  match s.bindings.get? name with
  | some v => .ok v
  | none => .error (.undefinedVariable name)

/-- The definition of a function. -/
def definitionOf (s : Scope) (name : String) : Except Fault Definition :=
  match s.functions.get? name with
  | some f => .ok f
  | none => .error (.undefinedFunction name)

/-- Which functions call which. -/
def callGraph (s : Scope) : Graph := ⟨s.functions.map fun e => (e.1, e.2.callees)⟩

/-- The name in use that differs from `name` at most by case. -/
def spelling? (s : Scope) (name : String) : Option String := s.spellings.get? (Text.lower name)

/-- Enters the spelling of a name. -/
def spell (t : Table String) (name : String) : Table String := t.set (Text.lower name) name

/-- **Imports a variable.** -/
def importVar (s : Scope) (name : String) : Except Fault Scope :=
  if name ∈ s.imports then .error (.importTwice name)
  else if s.bindings.has name then .error (.importExisting name)
  else if name ∈ s.keywords then .error (.importKeyword name)
  else
    match s.spelling? name with
    | some existing => .error (.assignConflict name existing)
    | none => .ok
        { s with
          imports := name :: s.imports
          bindings := s.bindings.set name (.scalar (.ident name))
          spellings := spell s.spellings name }

/-- **Enters a function.** -/
def define (s : Scope) (f : Definition) : Except Fault Scope :=
  if s.functions.has f.name then .error (.defineExisting f.name)
  else if f.name ∈ s.keywords then .error (.defineKeyword f.name)
  else .ok { s with functions := s.functions.set f.name f }

/-- The first of some target variables whose name is in use in some spelling, with that spelling. -/
def conflict? (s : Scope) : List String → Option (String × String)
  | [] => none
  | x :: rest =>
    match s.spelling? x with
    | some existing => some (x, existing)
    | none => conflict? s rest

/-- **Binds a variable** to a value, and gives the assignments that put the value into the target
variables it lives in.  From then on the name refers to those variables. -/
def letVar (s : Scope) (name : String) (value : Value) :
    Except Fault (Scope × List Target.Stmt) :=
  if name ∈ s.imports ∨ s.bindings.has name then .error (.assignExisting name)
  else if name ∈ s.keywords then .error (.assignKeyword name)
  else
    let parts := value.parts name
    match s.conflict? (name :: parts.map (·.1)) with
    | some (x, existing) => .error (.assignConflict x existing)
    | none => .ok
        ({ s with
            bindings := s.bindings.set name (value.reference name)
            spellings := (name :: parts.map (·.1)).foldl spell s.spellings },
          parts.map fun p => .assign p.1 p.2)

/-- **Exports a variable.**  The name counts as exported from the moment its value is found. -/
def exportVar (s : Scope) (name : String) : EStateM.Result Fault Scope Unit :=
  if name ∈ s.exports then .error (.exportTwice name) s
  else
    match s.valueOf name with
    | .error fault => .error fault s
    | .ok value =>
      let s := { s with exports := name :: s.exports }
      match value.cells with
      | .error wanted => .error (.misplaced wanted) s
      | .ok xs => .ok () { s with roots := xs.foldl (fun rs x => rs.insert x) s.roots }

end Scope

end Straightline
