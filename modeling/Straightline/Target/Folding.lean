import Straightline.Table
import Straightline.Target.Expr

/-!
# Constant folding

`Expr.reduce` computes the constant parts of an expression from the bottom up.  Variables whose latest
assignment is a literal are replaced by it, identities such as `0+n` and `n*1` drop a literal operand,
and an operation on literals is carried out unless its operands are outside its domain.

`fold` sweeps once over a program, and `foldToFixpoint` repeats the sweep until nothing changes.  Every
sweep that changes something leaves fewer nodes that are not literals (`weight_reduce`), which is why
the repetition ends.
-/

namespace Straightline.Target

/-- Why a program cannot be folded. -/
inductive FoldError where
  /-- A node does not belong where it stands. -/
  | misplaced (wanted : Misplaced)
  /-- The result of an operation cannot be scaled to raw units. -/
  | unscalable
  /-- After the given number of sweeps the program still changed. -/
  | unsettled (limit : Int)
  deriving DecidableEq, Repr

/-- The wording of a fold error. -/
def FoldError.message : FoldError → String
  | .misplaced wanted => wanted.message
  | .unscalable => Number.Fault.unscalable.message
  | .unsettled limit => s!"constant folding did not settle within {limit} passes"

namespace Expr

/-- Whether the expression is the literal `n`. -/
def isLiteral (n : Number) (e : Expr) : Bool := decide (e = .literal n)

/-- **The algebraic identities**: what an operation with a neutral or absorbing literal comes to. -/
def identity? (lhs : Expr) (op : InfixOp) (rhs : Expr) : Option Expr :=
  match op with
  | .add =>
    if lhs.isLiteral .zero then some rhs else if rhs.isLiteral .zero then some lhs else none
  | .sub => if rhs.isLiteral .zero then some lhs else none
  | .mul =>
    if lhs.isLiteral .zero || rhs.isLiteral .zero then some (.literal .zero)
    else if lhs.isLiteral .one then some rhs
    else if rhs.isLiteral .one then some lhs
    else none
  | .div => if rhs.isLiteral .one then some lhs else none
  | .pow =>
    if lhs.isLiteral .one then some (.literal .one)
    else if rhs.isLiteral .one then some lhs
    else none
  | _ => none

/-- The literal that an operation on literals comes to, or the operation itself if its operands are
outside its domain. -/
def settle (unfolded : Expr) : Except Number.Fault Number → Except FoldError Expr
  | .ok n => .ok (.literal n)
  | .error fault => if fault.isOfOperands then .ok unfolded else .error .unscalable

variable [Elementary]

/-- Folds a prefix operation on a folded operand. -/
def foldUnary (op : PrefixOp) (operand : Expr) : Except FoldError Expr :=
  match operand with
  | .literal n => settle (.unary op operand) (op.apply n)
  | _ => .ok (.unary op operand)

/-- Folds an infix operation on folded operands that no identity applies to. -/
def foldLiterals (lhs : Expr) (op : InfixOp) (rhs : Expr) : Except FoldError Expr :=
  match lhs, rhs with
  | .literal a, .literal b => settle (.binary lhs op rhs) (op.apply a b)
  | _, _ => .ok (.binary lhs op rhs)

/-- Folds an infix operation on folded operands. -/
def foldBinary (lhs : Expr) (op : InfixOp) (rhs : Expr) : Except FoldError Expr :=
  match identity? lhs op rhs with
  | some e => .ok e
  | none => foldLiterals lhs op rhs

/-- What a variable is replaced by: its latest value if that is a literal, else itself. -/
def resolve (bindings : Table Expr) (name : String) : Expr :=
  match bindings.get? name with
  | some (.literal n) => .literal n
  | _ => .ident name

/-- **Folds an expression**; `bindings` holds the folded right-hand sides of the latest
assignments. -/
def reduce (bindings : Table Expr) : Expr → Except FoldError Expr
  | .literal n => .ok (.literal n)
  | .ident x => .ok (resolve bindings x)
  | .unary op e => do
    let inner ← reduce bindings e
    foldUnary op inner
  | .binary l op r => do
    let lhs ← reduce bindings l
    let rhs ← reduce bindings r
    foldBinary lhs op rhs
  | .stray _ => .error (.misplaced .targetExpr)

end Expr

variable [Elementary]

/-- Folds statements behind those that gave rise to `bindings`. -/
def foldFrom (bindings : Table Expr) : List Stmt → Except FoldError (List Stmt)
  | [] => .ok []
  | .assign x e :: rest => do
    let e' ← e.reduce bindings
    let rest' ← foldFrom (bindings.set x e') rest
    return .assign x e' :: rest'
  | .stray _ :: _ => .error (.misplaced .targetStmt)

/-- **One sweep** of folding over a program. -/
def fold (stmts : List Stmt) : Except FoldError (List Stmt) := foldFrom [] stmts

/-! ## Folding to a fixpoint -/

/-- How many nodes of an expression are not literals. -/
def Expr.weight : Expr → Nat
  | .literal _ => 0
  | .ident _ => 1
  | .unary _ e => e.weight + 1
  | .binary l _ r => l.weight + r.weight + 1
  | .stray _ => 1

/-- How many nodes of a program are not literals. -/
def weight : List Stmt → Nat
  | [] => 0
  | .assign _ e :: rest => e.weight + weight rest
  | .stray _ :: rest => weight rest

omit [Elementary] in
theorem Expr.weight_identity? {lhs rhs e : Expr} {op : InfixOp}
    (h : identity? lhs op rhs = some e) : e.weight ≤ lhs.weight + rhs.weight := by
  have hzero : (Expr.literal .zero).weight = 0 := rfl
  have hone : (Expr.literal .one).weight = 0 := rfl
  unfold identity? at h
  repeat' split at h
  all_goals first
    | (obtain rfl := Option.some.inj h; omega)
    | cases h

omit [Elementary] in
theorem Expr.weight_settle {unfolded e : Expr} {r : Except Number.Fault Number}
    (h : settle unfolded r = .ok e) : e = unfolded ∨ e.weight = 0 := by
  unfold settle at h
  split at h
  · obtain rfl := Except.ok.inj h
    exact Or.inr rfl
  · split at h
    · exact Or.inl (Except.ok.inj h).symm
    · cases h

theorem Expr.weight_foldUnary {op : PrefixOp} {operand e : Expr}
    (h : foldUnary op operand = .ok e) : e = .unary op operand ∨ e.weight = 0 := by
  unfold foldUnary at h
  split at h
  · exact weight_settle h
  · exact Or.inl (Except.ok.inj h).symm

theorem Expr.weight_foldBinary {op : InfixOp} {lhs rhs e : Expr}
    (h : foldBinary lhs op rhs = .ok e) :
    e = .binary lhs op rhs ∨ e.weight ≤ lhs.weight + rhs.weight := by
  unfold foldBinary at h
  split at h
  · obtain rfl := Except.ok.inj h
    exact Or.inr (weight_identity? ‹_›)
  · unfold foldLiterals at h
    split at h
    · rcases weight_settle h with h | h
      · exact Or.inl h
      · exact Or.inr (by omega)
    · exact Or.inl (Except.ok.inj h).symm

/-- **Folding leaves an expression alone or makes it lighter.** -/
theorem Expr.weight_reduce {bindings : Table Expr} {e e' : Expr}
    (h : e.reduce bindings = .ok e') : e' = e ∨ e'.weight < e.weight := by
  induction e generalizing e' with
  | literal n => exact Or.inl (Except.ok.inj h).symm
  | ident x =>
    obtain rfl := Except.ok.inj h
    unfold resolve
    split
    · exact Or.inr (by simp [weight])
    · exact Or.inl rfl
  | unary op e ih =>
    cases hi : e.reduce bindings with
    | error f => rw [reduce, hi] at h; cases h
    | ok inner =>
      rw [reduce, hi] at h
      have hle : inner = e ∨ inner.weight < e.weight := ih hi
      rcases weight_foldUnary h with rfl | h0
      · rcases hle with rfl | hlt
        · exact Or.inl rfl
        · exact Or.inr (by simp only [weight]; omega)
      · exact Or.inr (by simp only [weight]; omega)
  | binary l op r ihl ihr =>
    cases hl : l.reduce bindings with
    | error f => rw [reduce, hl] at h; cases h
    | ok lhs =>
      cases hr : r.reduce bindings with
      | error f => rw [reduce, hl, hr] at h; cases h
      | ok rhs =>
        rw [reduce, hl, hr] at h
        have hll : lhs = l ∨ lhs.weight < l.weight := ihl hl
        have hrr : rhs = r ∨ rhs.weight < r.weight := ihr hr
        have hlw : lhs.weight ≤ l.weight := by rcases hll with rfl | h <;> omega
        have hrw : rhs.weight ≤ r.weight := by rcases hrr with rfl | h <;> omega
        rcases weight_foldBinary h with rfl | hle
        · rcases hll with rfl | hlt
          · rcases hrr with rfl | hrt
            · exact Or.inl rfl
            · exact Or.inr (by simp only [weight]; omega)
          · exact Or.inr (by simp only [weight]; omega)
        · exact Or.inr (by simp only [weight]; omega)
  | stray node => cases h

theorem weight_foldFrom {stmts folded : List Stmt} {bindings : Table Expr}
    (h : foldFrom bindings stmts = .ok folded) : folded = stmts ∨ weight folded < weight stmts := by
  induction stmts generalizing bindings folded with
  | nil => exact Or.inl (Except.ok.inj h).symm
  | cons s rest ih =>
    cases s with
    | stray node => cases h
    | assign x e =>
      cases he : e.reduce bindings with
      | error f => rw [foldFrom, he] at h; cases h
      | ok e' =>
        cases hr : foldFrom (bindings.set x e') rest with
        | error f => simp only [foldFrom, he, bind, Except.bind, hr] at h; cases h
        | ok rest' =>
          simp only [foldFrom, he, bind, Except.bind, hr] at h
          obtain rfl := Except.ok.inj h
          have hew := Expr.weight_reduce he
          have hrw := ih hr
          rcases hew with rfl | hlt
          · rcases hrw with rfl | hrt
            · exact Or.inl rfl
            · exact Or.inr (by simp only [weight]; omega)
          · have : weight rest' ≤ weight rest := by rcases hrw with rfl | h <;> omega
            exact Or.inr (by simp only [weight]; omega)

/-- **A sweep that changes a program makes it lighter.** -/
theorem weight_fold_lt {stmts folded : List Stmt} (h : fold stmts = .ok folded)
    (hne : folded ≠ stmts) : weight folded < weight stmts :=
  (weight_foldFrom h).resolve_left hne

/-- The limit on sweeps, if `passes` of them reach it. -/
def reached? (limit : Option Int) (passes : Nat) : Option Int :=
  match limit with
  | some k => if k ≤ passes then some k else none
  | none => none

/-- Repeats the sweep, `passes` of which have been made. -/
def foldAgain (limit : Option Int) (passes : Nat) (stmts : List Stmt) :
    Except FoldError (List Stmt) :=
  match _h : fold stmts with
  | .error e => .error e
  | .ok folded =>
    if folded = stmts then .ok folded
    else
      match reached? limit (passes + 1) with
      | some k => .error (.unsettled k)
      | none => foldAgain limit (passes + 1) folded
termination_by weight stmts
decreasing_by exact weight_fold_lt _h ‹_›

/-- **Folds a program until a sweep leaves it unchanged.**  `limit` caps the number of sweeps, the last
one included. -/
def foldToFixpoint (limit : Option Int) (stmts : List Stmt) : Except FoldError (List Stmt) :=
  foldAgain limit 0 stmts

end Straightline.Target
