import Straightline.Files.Disk
import Straightline.Json.Reader
import Straightline.Settings

/-!
# Settings files

A settings file is a JSON object.  Its section `compiler` holds the settings of the compiler, and its
section `directories` those of a batch; a section that is missing is empty.
-/

namespace Straightline.Settings

/-- Why settings cannot be loaded. -/
inductive LoadError where
  | disk (path : String) (fault : DiskFault)
  | encoding (fault : Text.Utf8.Fault)
  | json (error : Json.ReadError)
  | notObject (path : String)
  /-- The section that is read for the settings of the given name has problems. -/
  | invalid (name : String) (problems : List Problem)

/-- The wording of a load error. -/
def LoadError.message : LoadError → String
  | disk path fault => fault.message path
  | encoding fault => fault.message
  | json error => error.message
  | notObject path => s!"Compiler config must be a JSON object: {path}"
  | invalid name problems => problemsMessage name problems

/-- The sections of a settings file. -/
abbrev Sections := List (String × Json)

/-- Reads the text of the settings file at `path`. -/
def sectionsOf (path text : String) : Except LoadError Sections := do
  match ← (Json.read text).mapError .json with
  | .object members => return members
  | _ => .error (.notObject path)

/-- The section of the given name. -/
def Sections.find (s : Sections) (name : String) : Json := (s.lookup name).getD (.object [])

/-- The compiler's section. -/
def Sections.settings (s : Sections) : Except LoadError Settings :=
  (Settings.read (s.find "compiler")).mapError (.invalid "CompilerConfig")

/-- The section of a batch's directories. -/
def Sections.directories (s : Sections) : Except LoadError Directories :=
  (Directories.read (s.find "directories")).mapError (.invalid "DirectoriesConfig")

/-- **Loads the sections of a settings file.** -/
def loadSections {m : Type → Type} [Monad m] [Disk m] (path : String) :
    m (Except LoadError Sections) := do
  match ← Disk.readText path with
  | .error (.disk fault) => return .error (.disk path fault)
  | .error (.encoding fault) => return .error (.encoding fault)
  | .ok text => return sectionsOf path text

end Straightline.Settings
