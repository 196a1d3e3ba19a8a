/-!
# Misplaced nodes

A tree that was built elsewhere may hold a node where none of its kind belongs: an expression of the
source language inside one of the target language, a statement in place of an expression.  Such a tree
is accepted, and the node is refused by the first operation that comes upon it.  Until then it is kept
as a `Stray`.
-/

namespace Straightline

/-- **A misplaced node**, which no operation looks into. -/
structure Stray where
  /-- The node as it was given. -/
  given : String
  /-- How the node shows in the text of the tree around it. -/
  shown : String
  deriving DecidableEq, Repr

/-- What an operation wanted in the place of a misplaced node. -/
inductive Misplaced where
  /-- An expression of the target language. -/
  | targetExpr
  /-- An assignment, to be printed or folded. -/
  | targetStmt
  /-- An assignment, to be drawn into a dependency graph. -/
  | dependency
  /-- An expression of the source language. -/
  | sourceExpr
  /-- A statement of the source language. -/
  | sourceStmt
  /-- A plain variable, to be exported. -/
  | reference
  deriving DecidableEq, Repr

/-- The wording of the refusal. -/
def Misplaced.message : Misplaced → String
  | .targetExpr => "expected Yolol expression, but got"
  | .targetStmt => "expected Yolol assign statement, but got"
  | .dependency => "expected assign statement, but got"
  | .sourceExpr => "expected Yolk expression, but got"
  | .sourceStmt => "expected Yolk statement, but got"
  | .reference => "scalar is not a reference"

end Straightline
