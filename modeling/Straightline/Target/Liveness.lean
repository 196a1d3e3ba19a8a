import Straightline.Graph
import Straightline.Target.Folding

/-!
# Live assignments

An assignment is live if its target can be reached from the exported variables along the variables
that are read on its way.  `optimize` folds a program and drops the assignments that are not live.
-/

namespace Straightline.Target

/-- **The variables that an expression reads.** -/
def Expr.reads : Expr → Except Misplaced (List String)
  | .literal _ => .ok []
  | .ident x => .ok [x]
  | .unary _ e => e.reads
  | .binary l _ r => do
    let xs ← l.reads
    let ys ← r.reads
    return xs ++ ys
  | .stray _ => .error .targetExpr

/-- Enters statements into a dependency graph. -/
def dependenciesFrom (g : Graph) : List Stmt → Except Misplaced Graph
  | [] => .ok g
  | .assign x e :: rest => do
    let xs ← e.reads
    dependenciesFrom (g.addEdges x xs.eraseDups) rest
  | .stray _ :: _ => .error .dependency

/-- **The dependency graph of a program**: from each target to all that its right-hand sides read. -/
def dependencies (stmts : List Stmt) : Except Misplaced Graph := dependenciesFrom ⟨[]⟩ stmts

/-- Whether a statement assigns one of the given variables. -/
def Stmt.assigns (live : List String) : Stmt → Bool
  | .assign x _ => decide (x ∈ live)
  | .stray _ => false

/-- **Drops the assignments that no root depends on.** -/
def dropDead (roots : List String) (stmts : List Stmt) : Except Misplaced (List Stmt) := do
  let g ← dependencies stmts
  return stmts.filter (Stmt.assigns (g.search roots))

/-- **Folds a program and drops what is dead.** -/
def optimize [Elementary] (limit : Option Int) (roots : List String) (stmts : List Stmt) :
    Except FoldError (List Stmt) := do
  let folded ← foldToFixpoint limit stmts
  (dropDead roots folded).mapError .misplaced

end Straightline.Target
