import Straightline.Proofs.Arithmetic
import Straightline.Proofs.Reading
import Straightline.Proofs.Running

/-!
# Running printed text

The text of a program leaves the rows of `+`, `and` and `or` ungrouped, so that they are read from the
left.  The truth values of `and` and `or` do not depend on the grouping.  Sums do, since each of them is
saturated: with the greatest number for `a`, the sum `a + (1 + -1)` is `a`, and `(a + 1) + -1` is less.
There text and program part (`run_print_saturated`).

They part nowhere else.  `Store.rowsOfRun` lists the sums of three numbers that the text regroups, at the
values that the run meets.  If these associate, then text and program run alike: to the same variables,
or into the same error at the same statement (`run_print`).
-/

namespace Straightline.Target

/-! ## Sums of three -/

/-- The sum of two numbers, or their difference if the operator is a minus. -/
def total : InfixOp → Number → Number → Number
  | .sub, b, c => b.sub c
  | _, b, c => b.add c

/-- **A sum of three numbers** in a row, the last of which is added or subtracted. -/
structure Row where
  first : Number
  second : Number
  op : InfixOp
  third : Number

/-- **The grouping of a row does not matter.** -/
def Row.Associates (g : Row) : Prop :=
  total g.op (g.first.add g.second) g.third = g.first.add (total g.op g.second g.third)

instance (g : Row) : Decidable g.Associates :=
  inferInstanceAs (Decidable (_ = _))

section

variable [Elementary] {s : Store}

theorem exists_apply {op : InfixOp} (hop : op.isAssociative = true) (a b : Number) :
    ∃ ab, op.apply a b = .ok ab := by
  cases op with
  | add | and | or => exact ⟨_, rfl⟩
  | _ => exact absurd hop (by decide)

/-- An associative operator, and one as strong: what they yield in a row does not depend on the
grouping, except where sums are saturated. -/
theorem apply_assoc {op o : InfixOp} {a b c : Number} (hop : op.isAssociative = true)
    (ho : o.strength = op.strength) (h : op = .add → Row.Associates ⟨a, b, o, c⟩) :
    ∃ ab bc abc, op.apply a b = .ok ab ∧ o.apply b c = .ok bc ∧ o.apply ab c = .ok abc ∧
      op.apply a bc = .ok abc := by
  cases op with
  | add =>
    have hcases : o = .add ∨ o = .sub := by
      revert ho
      cases o <;> decide
    have hassoc := h rfl
    rcases hcases with rfl | rfl
    · exact ⟨_, _, _, rfl, rfl, rfl, congrArg Except.ok hassoc.symm⟩
    · exact ⟨_, _, _, rfl, rfl, rfl, congrArg Except.ok hassoc.symm⟩
  | and =>
    obtain rfl : o = .and := by
      revert ho
      cases o <;> decide
    refine ⟨_, _, _, rfl, rfl, rfl, ?_⟩
    simp only [InfixOp.apply, Number.isTrue_ofBool, Bool.and_assoc]
  | or =>
    obtain rfl : o = .or := by
      revert ho
      cases o <;> decide
    refine ⟨_, _, _, rfl, rfl, rfl, ?_⟩
    simp only [InfixOp.apply, Number.isTrue_ofBool, Bool.or_assoc]
  | _ => exact absurd hop (by decide)

/-! ## Regrouped rows -/

omit [Elementary] in
/-- The row of three numbers, if the latter two have values. -/
def rowOf (a : Number) : Except EvalError Number → InfixOp → Except EvalError Number → List Row
  | .ok b, op, .ok c => [⟨a, b, op, c⟩]
  | _, _, _ => []

/-- The rows that come up when `a +` is put at the front of a row of sums and differences. -/
def Store.rowsBehind (s : Store) (a : Number) : Expr → List Row
  | .binary x o y =>
    if o.strength = InfixOp.add.strength then s.rowsBehind a x ++ rowOf a (s.eval x) o (s.eval y)
    else []
  | _ => []

/-- The rows that the text of an expression regroups: behind each `a +` whose right operand is itself
a sum, and stands there without its parentheses. -/
def Store.rows (s : Store) : Expr → List Row
  | .unary _ e => s.rows e
  | .binary l op r =>
    s.rows l ++ s.rows r ++
      if op = .add ∧ r.isBinary .add then
        match s.eval l with
        | .ok a => s.rowsBehind a r.norm
        | .error _ => []
      else []
  | _ => []

/-- **The rows that the text of a program regroups**, at the values that the run meets. -/
def Store.rowsOfRun (s : Store) : List Stmt → List Row
  | [] => []
  | .assign x e :: rest =>
    s.rows e ++
      match s.eval e with
      | .ok v => (s.set x v).rowsOfRun rest
      | .error _ => []
  | .stray _ :: _ => []

/-- **How many assignments are carried out** before a program ends or stops. -/
def Store.completed (s : Store) : List Stmt → Nat
  | [] => 0
  | .assign x e :: rest =>
    match s.eval e with
    | .ok v => (s.set x v).completed rest + 1
    | .error _ => 0
  | .stray _ :: _ => 0

/-! ## Text and program -/

/-- Grafting keeps the value, or the error, of an operation. -/
theorem eval_graft {a e : Expr} {op : InfixOp} (hop : op.isAssociative = true)
    (h : ∀ v, s.eval a = .ok v → op = .add → ∀ g ∈ s.rowsBehind v e, g.Associates) :
    s.eval (a.graft op e) = s.eval (.binary a op e) := by
  induction e with
  | binary x o y ihx ihy =>
    by_cases ho : o.strength = op.strength
    · have hrows : ∀ v, op = .add →
          s.rowsBehind v (.binary x o y) = s.rowsBehind v x ++ rowOf v (s.eval x) o (s.eval y) := by
        rintro v rfl
        rw [Store.rowsBehind, if_pos ho]
      have hx := ihx fun v hv hadd g hg =>
        h v hv hadd g (hrows v hadd ▸ List.mem_append_left _ hg)
      rw [Expr.graft_binary_of_eq ho, Store.eval, hx]
      simp only [Store.eval]
      -- either way `a` comes first, then `x`, then `y`, and the first error is the error
      cases hv : s.eval a with
      | error f => rfl
      | ok v =>
        cases hb : s.eval x with
        | error f => rfl
        | ok b =>
          cases hc : s.eval y with
          | error f =>
            obtain ⟨w, hw⟩ := exists_apply hop v b
            simp only [bind, Except.bind, hw, Store.mapError_ok]
          | ok c =>
            have hassoc : op = .add → Row.Associates ⟨v, b, o, c⟩ := by
              intro hadd
              refine h v hv hadd _ ?_
              rw [hrows v hadd, hb, hc]
              exact List.mem_append_right _ List.mem_cons_self
            obtain ⟨ab, bc, abc, hab, hbc, habc, habc'⟩ := apply_assoc hop ho hassoc
            simp only [bind, Except.bind, Store.mapError_ok, hab, hbc, habc, habc']
    · rw [Expr.graft, if_neg ho]
  | _ => rfl

/-- An expression and its normal form have the same value, or the same error. -/
theorem eval_norm {e : Expr} (h : ∀ g ∈ s.rows e, g.Associates) : s.eval e.norm = s.eval e := by
  induction e with
  | unary op e ih =>
    rw [Expr.norm]
    cases hsigned : Expr.signed? op e with
    | none => rw [Option.getD_none, Store.eval, Store.eval, ih h]
    | some d =>
      rw [Expr.signed?.eq_def] at hsigned
      split at hsigned
      · split at hsigned
        · obtain rfl := Option.some.inj hsigned
          rfl
        · cases hsigned
      · cases hsigned
  | binary l op r ihl ihr =>
    have hl := ihl fun g hg => h g (List.mem_append_left _ (List.mem_append_left _ hg))
    have hr := ihr fun g hg => h g (List.mem_append_left _ (List.mem_append_right _ hg))
    have hbinary : s.eval (.binary l.norm op r.norm) = s.eval (.binary l op r) := by
      rw [Store.eval, Store.eval, hl, hr]
    rw [Expr.norm]
    split
    · rename_i hregroups
      obtain ⟨hop, hsame⟩ := Bool.and_eq_true_iff.mp hregroups
      rw [← hbinary]
      refine eval_graft hop fun v hv hadd g hg => h g (List.mem_append_right _ ?_)
      subst hadd
      rw [if_pos ⟨rfl, hsame⟩, ← hl, hv]
      exact hg
    · exact hbinary
  | _ => rfl

/-- **A program and its normal form run alike**, statement by statement. -/
theorem run_map_norm {stmts : List Stmt} (h : ∀ g ∈ s.rowsOfRun stmts, g.Associates) :
    s.run (stmts.map Stmt.norm) = s.run stmts ∧
      s.completed (stmts.map Stmt.norm) = s.completed stmts := by
  induction stmts generalizing s with
  | nil => exact ⟨rfl, rfl⟩
  | cons stmt rest ih =>
    cases stmt with
    | stray node => exact ⟨rfl, rfl⟩
    | assign x e =>
      have he : s.eval e.norm = s.eval e := eval_norm fun g hg => h g (List.mem_append_left _ hg)
      simp only [List.map_cons, Stmt.norm, Store.run, Store.completed, he]
      cases hv : s.eval e with
      | error f => exact ⟨rfl, rfl⟩
      | ok v =>
        obtain ⟨hrun, hcompleted⟩ := ih fun g hg => h g (by
          rw [Store.rowsOfRun, hv]
          exact List.mem_append_right _ hg)
        exact ⟨hrun, congrArg Nat.succ hcompleted⟩

/-- **Printing preserves meaning where sums associate.**  Every legible program can be printed, whatever
the limit on the length of lines, and its text can be read.  If the sums that the text regroups associate
at the values that the run meets, then what is read runs as the program does: both end with the same
variables, or both stop at the same statement with the same error. -/
theorem run_print (limit : Int) {stmts : List Stmt} (hlegible : ∀ stmt ∈ stmts, stmt.Legible)
    (hrows : ∀ g ∈ s.rowsOfRun stmts, g.Associates) :
    ∃ text read, print limit stmts = .ok text ∧ parse text = .ok read ∧
      s.run read = s.run stmts ∧ s.completed read = s.completed stmts := by
  obtain ⟨text, toks, q, hprint, htoks, htokenize⟩ := tokenize_print limit hlegible
  exact ⟨text, _, hprint, parse_of_written htoks htokenize, run_map_norm hrows⟩

end

/-- A program with rows of sums, differences and truth values: `x=a+b-c+d y=u+b+b z=x and b and c`. -/
def ungrouped : List Stmt :=
  [.assign "x" (.binary (.ident "a") .add
      (.binary (.binary (.ident "b") .sub (.ident "c")) .add (.ident "d"))),
    .assign "y" (.binary (.ident "u") .add (.binary (.ident "b") .add (.ident "b"))),
    .assign "z" (.binary (.ident "x") .and (.binary (.ident "b") .and (.ident "c")))]

/-- Variables for `ungrouped`, with the greatest number for `u`. -/
def ungroupedStart : Store :=
  ⟨[("a", .ofInt 7), ("b", .ofInt 2), ("c", .ofInt 5), ("d", .one), ("u", .greatest)]⟩

/-- The sum for `y` is saturated, and associates all the same. -/
theorem run_print_ungrouped :
    (∀ stmt ∈ ungrouped, stmt.Legible) ∧
      (∀ g ∈ ungroupedStart.rowsOfRun ungrouped, g.Associates) ∧
      ∃ text read, print 12 ungrouped = .ok text ∧ parse text = .ok read ∧
        ungroupedStart.run read = .ok ()
          ⟨ungroupedStart.cells ++ [("x", .ofInt 5), ("y", .greatest), ("z", .one)]⟩ ∧
        ungroupedStart.completed read = 3 := by
  have hlegible : ∀ stmt ∈ ungrouped, stmt.Legible := by decide +kernel
  have hrows : ∀ g ∈ ungroupedStart.rowsOfRun ungrouped, g.Associates := by decide +kernel
  obtain ⟨text, read, hprint, hparse, hrun, hcompleted⟩ := run_print 12 hlegible hrows
  exact ⟨hlegible, hrows, text, read, hprint, hparse, hrun, hcompleted⟩

/-- A sum that comes back to where it started: `x=a+b+c`, grouped from the right. -/
def returning : List Stmt :=
  [.assign "x" (.binary (.ident "a") .add (.binary (.ident "b") .add (.ident "c")))]

/-- Variables for `returning`, with the greatest number for `a`. -/
def returningStart : Store := ⟨[("a", .greatest), ("b", .one), ("c", .ofInt (-1))]⟩

/-- **A saturated sum does not associate.**  The program leaves `x` at the greatest number.  Its text
leaves `x` one below, since the sum from the left is saturated before one is taken from it. -/
theorem run_print_saturated :
    ∃ text read t u, print 70 returning = .ok text ∧ parse text = .ok read ∧
      returningStart.run returning = .ok () t ∧ t.get "x" = .greatest ∧
      returningStart.run read = .ok () u ∧ u.get "x" = Number.greatest.sub .one := by
  have hlegible : ∀ stmt ∈ returning, stmt.Legible := by decide +kernel
  obtain ⟨text, toks, q, hprint, htoks, htokenize⟩ := tokenize_print 70 hlegible
  refine ⟨text, _, _, _, hprint, parse_of_written htoks htokenize, rfl, ?_, rfl, ?_⟩
  · decide +kernel
  · decide +kernel

end Straightline.Target
