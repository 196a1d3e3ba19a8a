import Straightline.Lowering

/-!
# Sessions

A session processes source statements one after the other and collects the assignments they give rise
to.  A refused statement leaves the session going: what was entered before it stays.
-/

namespace Straightline

/-- A target program with the variables it exports. -/
structure Output where
  stmts : List Target.Stmt
  roots : List String
  deriving DecidableEq

/-- **The state of a session.** -/
structure Session where
  scope : Scope := {}
  /-- The assignments so far. -/
  emitted : List Target.Stmt := []
  /-- The functions that are known not to come back to themselves. -/
  checked : List String := []
  deriving DecidableEq

namespace Session

/-- Takes over a new scope, or reports a fault and keeps the old one. -/
def enter (s : Session) : Except Fault Scope → EStateM.Result Fault Session Unit
  | .ok scope => .ok () { s with scope := scope }
  | .error fault => .error fault s

/-- Binds a variable to the value of an expression. -/
def letVar (s : Session) (name : String) (e : Source.Expr) : EStateM.Result Fault Session Unit :=
  match lower s.scope e s.checked with
  | .error fault checked => .error fault { s with checked := checked }
  | .ok value checked =>
    match s.scope.letVar name value with
    | .error fault => .error fault { s with checked := checked }
    | .ok (scope, stmts) =>
      .ok () { scope := scope, emitted := s.emitted ++ stmts, checked := checked }

/-- Exports a variable. -/
def exportVar (s : Session) (name : String) : EStateM.Result Fault Session Unit :=
  match s.scope.exportVar name with
  | .ok _ scope => .ok () { s with scope := scope }
  | .error fault scope => .error fault { s with scope := scope }

/-- **Processes a statement.** -/
def step (s : Session) : Source.Stmt → EStateM.Result Fault Session Unit
  | .importVar name => s.enter (s.scope.importVar name)
  | .define name params body => s.enter ((Definition.define name params body).bind s.scope.define)
  | .letVar name e => s.letVar name e
  | .exportVar name => s.exportVar name
  | .stray _ => .error (.misplaced .sourceStmt) s

/-- **Processes statements** up to the first one that is refused. -/
def run (s : Session) : Source.Program → EStateM.Result Refusal Session Unit
  | [] => .ok () s
  | stmt :: rest =>
    match s.step stmt with
    | .ok _ s' => s'.run rest
    | .error fault s' => .error ⟨fault, stmt⟩ s'

/-- The target program of a session. -/
def output (s : Session) : Output := ⟨s.emitted, s.scope.roots⟩

end Session

/-- **Lowers a source program.** -/
def lowerProgram (p : Source.Program) : Except Refusal Output :=
  match ({} : Session).run p with
  | .ok _ s => .ok s.output
  | .error refusal _ => .error refusal

end Straightline
