import Straightline.Target.Printer

/-!
# Normal forms of expressions

Two expressions may have the same text.  A minus sign before an unsigned numeral belongs to the numeral,
and a row of an associative operator has no parentheses, so that it is read from the left however it
was grouped.  `Expr.norm` is the expression that the text of an expression stands for: signs are drawn
into numerals, and the right operand of `a + (b + c)` is grafted onto `a`.

A row is grafted as a whole, with all operators of its strength: `a + ((b - c) + d)` has the text
`a+b-c+d` and the normal form `((a + b) - c) + d`.
-/

namespace Straightline.Target

namespace Expr

/-- Puts `a op` at the front of the row of operators, as strong as `op`, that an expression is. -/
def graft (a : Expr) (op : InfixOp) : Expr → Expr
  | .binary x o y =>
    if o.strength = op.strength then .binary (graft a op x) o y else .binary a op (.binary x o y)
  | e => .binary a op e

/-- The literal that a minus sign and an unsigned numeral make up. -/
def signed? : PrefixOp → Expr → Option Expr
  | .neg, .literal n => if 0 ≤ n.raw then some (.literal n.neg) else none
  | _, _ => none

/-- **The normal form of an expression**: the one that its text stands for. -/
def norm : Expr → Expr
  | .unary op e => (signed? op e).getD (.unary op e.norm)
  | .binary l op r =>
    if op.isAssociative && r.isBinary op then graft l.norm op r.norm else .binary l.norm op r.norm
  | e => e

variable {a b e x y : Expr} {op o : InfixOp}

theorem graft_binary_of_eq (h : o.strength = op.strength) :
    graft a op (.binary x o y) = .binary (graft a op x) o y :=
  if_pos h

/-- A row of another strength is an operand as a whole. -/
theorem graft_of_forall (h : ∀ x o y, e = .binary x o y → o.strength ≠ op.strength) :
    graft a op e = .binary a op e := by
  cases e with
  | binary x o y => exact if_neg (h x o y rfl)
  | _ => rfl

/-- Grafting a row that is itself grafted: the two fronts can be put on one after the other. -/
theorem graft_graft (h : o.strength = op.strength) :
    graft a op (graft b o e) = graft (graft a op b) o e := by
  have hplain : ∀ e, graft a op (.binary b o e) = .binary (graft a op b) o e :=
    fun e => graft_binary_of_eq h
  induction e with
  | binary x o' y ihx ihy =>
    by_cases ho : o'.strength = o.strength
    · rw [graft_binary_of_eq ho, graft_binary_of_eq (ho.trans h), graft_binary_of_eq ho,
        ihx]
    · have hne : ∀ x₁ o₁ y₁, Expr.binary x o' y = .binary x₁ o₁ y₁ → o₁.strength ≠ o.strength := by
        rintro x₁ o₁ y₁ ⟨⟩
        exact ho
      rw [graft_of_forall hne, graft_of_forall hne, hplain]
  | _ => exact hplain _

/-- Grafting keeps to the strength of the operator. -/
theorem strength_of_graft_eq (h : graft a op e = .binary x o y) : o.strength = op.strength := by
  cases e with
  | binary x' o' y' =>
    rw [graft] at h
    split at h
    · cases h
      assumption
    · cases h
      rfl
  | _ => cases h; rfl

end Expr

/-- The normal form of a statement. -/
def Stmt.norm : Stmt → Stmt
  | .assign x e => .assign x e.norm
  | .stray node => .stray node

end Straightline.Target
