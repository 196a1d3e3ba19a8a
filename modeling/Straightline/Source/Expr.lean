import Straightline.Operator
import Straightline.Stray

/-!
# The source language

Expressions of the source language may be arrays, and operators act on them element by element.  A
program imports and exports variables, binds new ones, and defines functions.

A tree may ask for a reduction by any operator.  Only those of `FoldOp` exist, and only they are written
in a text; another one is found out when it is computed or printed.
-/

namespace Straightline.Source

/-- **An expression of the source language.** -/
inductive Expr where
  | literal (n : Number)
  | ident (name : String)
  | unary (op : PrefixOp) (operand : Expr)
  | binary (lhs : Expr) (op : InfixOp) (rhs : Expr)
  | call (function : String) (args : List Expr)
  | fold (op : InfixOp) (args : List Expr)
  | array (items : List Expr)
  /-- A node that is no expression of the source language. -/
  | stray (node : Stray)

/-- **A statement of the source language.** -/
inductive Stmt where
  | importVar (name : String)
  | define (name : String) (params : List String) (body : Expr)
  | letVar (name : String) (expr : Expr)
  | exportVar (name : String)
  /-- A node that is no statement of the source language. -/
  | stray (node : Stray)

/-- A program of the source language. -/
abbrev Program := List Stmt

/-! ## Equality of trees -/

namespace Expr

mutual

/-- Whether two expressions are the same tree. -/
def same : Expr → Expr → Bool
  | literal m, literal n => decide (m = n)
  | ident x, ident y => decide (x = y)
  | unary o a, unary p b => decide (o = p) && same a b
  | binary a o b, binary c p d => decide (o = p) && same a c && same b d
  | call f as, call g bs => decide (f = g) && sameAll as bs
  | fold o as, fold p bs => decide (o = p) && sameAll as bs
  | array as, array bs => sameAll as bs
  | stray s, stray t => decide (s = t)
  | _, _ => false

/-- Whether two lists of expressions are the same trees. -/
def sameAll : List Expr → List Expr → Bool
  | [], [] => true
  | a :: as, b :: bs => same a b && sameAll as bs
  | _, _ => false

end

mutual

theorem eq_of_same : ∀ a b : Expr, same a b = true → a = b
  | literal _, b, h => by cases b <;> simp_all [same]
  | ident _, b, h => by cases b <;> simp_all [same]
  | unary _ a, b, h => by
      cases b <;> simp only [same, Bool.and_eq_true, decide_eq_true_eq, Bool.false_eq_true] at h
      rw [h.1, eq_of_same a _ h.2]
  | binary a _ c, b, h => by
      cases b <;> simp only [same, Bool.and_eq_true, decide_eq_true_eq, Bool.false_eq_true] at h
      rw [h.1.1, eq_of_same a _ h.1.2, eq_of_same c _ h.2]
  | call _ as, b, h => by
      cases b <;> simp only [same, Bool.and_eq_true, decide_eq_true_eq, Bool.false_eq_true] at h
      rw [h.1, eq_of_sameAll as _ h.2]
  | fold _ as, b, h => by
      cases b <;> simp only [same, Bool.and_eq_true, decide_eq_true_eq, Bool.false_eq_true] at h
      rw [h.1, eq_of_sameAll as _ h.2]
  | array as, b, h => by
      cases b <;> simp only [same, Bool.false_eq_true] at h
      rw [eq_of_sameAll as _ h]
  | stray _, b, h => by cases b <;> simp_all [same]

theorem eq_of_sameAll : ∀ as bs : List Expr, sameAll as bs = true → as = bs
  | [], bs, h => by cases bs <;> simp_all [sameAll]
  | a :: as, bs, h => by
      cases bs with
      | nil => simp [sameAll] at h
      | cons b bs =>
        simp only [sameAll, Bool.and_eq_true] at h
        rw [eq_of_same a b h.1, eq_of_sameAll as bs h.2]

end

mutual

theorem same_self : ∀ a : Expr, same a a = true
  | literal _ => by simp [same]
  | ident _ => by simp [same]
  | unary _ a => by simp [same, same_self a]
  | binary a _ b => by simp [same, same_self a, same_self b]
  | call _ as => by simp [same, sameAll_self as]
  | fold _ as => by simp [same, sameAll_self as]
  | array as => by simp [same, sameAll_self as]
  | stray _ => by simp [same]

theorem sameAll_self : ∀ as : List Expr, sameAll as as = true
  | [] => rfl
  | a :: as => by simp [sameAll, same_self a, sameAll_self as]

end

instance : DecidableEq Expr := fun a b =>
  if h : same a b = true then .isTrue (eq_of_same a b h)
  else .isFalse fun e => h (e ▸ same_self a)

end Expr

deriving instance DecidableEq for Stmt

end Straightline.Source
