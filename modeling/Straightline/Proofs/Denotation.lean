import Mathlib.Data.List.Forall2
import Straightline.Lowering
import Straightline.Proofs.Evaluation
import Straightline.Proofs.Running
import Straightline.Proofs.Steps

/-!
# Lowered values denote what direct evaluation computes

In a store, a lowered value *denotes* a number or an array of numbers: each of its target expressions
has the corresponding number as its value (`Denotes`).  The operations on lowered values keep step with
those on numbers and arrays, and so does the lowering of a whole expression
(`computes_lower`).

Lowering inlines a call: it computes an argument wherever its parameter is read.  Direct evaluation
computes every argument once and before the call.  The two meet because a parameter stands for a
computation that yields, if it yields anything, a value that denotes the value of the argument
(`Computes`); where direct evaluation succeeds, it makes no difference how often or whether at all
such a computation is carried out.
-/

namespace Straightline

open Source (Datum Environment evalCall)
open Target (Store)

variable [Elementary]

/-- The values of some target expressions, one by one. -/
abbrev Yield (s : Store) : List Target.Expr → List Number → Prop :=
  List.Forall₂ fun e n => s.eval e = .ok n

/-- **A lowered value denotes** a number or an array of numbers in a store. -/
def Denotes (s : Store) : Value → Datum → Prop
  | .scalar e, .number n => s.eval e = .ok n
  | .vector es, .array ns => Yield s es ns
  | _, _ => False

/-! ## Operations on values -/

omit [Elementary] in
theorem forall₂_of_mapM {α β : Type} {f : α → Option β} {as : List α} {bs : List β}
    (h : as.mapM f = some bs) : List.Forall₂ (fun a b => f a = some b) as bs := by
  induction as generalizing bs with
  | nil =>
    obtain rfl : [] = bs := by simpa using h
    exact .nil
  | cons a as ih =>
    rw [List.mapM_cons] at h
    obtain ⟨b, hb, h⟩ := Option.bind_eq_some_iff.mp h
    obtain ⟨bs', hbs, h⟩ := Option.bind_eq_some_iff.mp h
    obtain rfl : b :: bs' = bs := Option.some.inj h
    exact .cons hb (ih hbs)

section
variable {s : Store}

/-- What holds of an operation on single expressions holds of it element by element. -/
theorem Yield.map {es : List Target.Expr} {ns ms : List Number} {f : Target.Expr → Target.Expr}
    {g : Number → Option Number} (h : Yield s es ns)
    (hf : ∀ e n m, s.eval e = .ok n → g n = some m → s.eval (f e) = .ok m)
    (hg : ns.mapM g = some ms) : Yield s (es.map f) ms := by
  replace hg := forall₂_of_mapM hg
  induction h generalizing ms with
  | nil => cases hg; exact .nil
  | cons he _ ih =>
    cases hg with
    | cons hm hg => exact .cons (hf _ _ _ he hm) (ih hg)

theorem Yield.zipWith {op : InfixOp} {as bs : List Target.Expr} {xs ys ms : List Number}
    (ha : Yield s as xs) (hb : Yield s bs ys)
    (hm : (xs.zip ys).mapM (fun p => (op.apply p.1 p.2).toOption) = some ms) :
    Yield s (List.zipWith (fun a b => .binary a op b) as bs) ms := by
  replace hm := forall₂_of_mapM hm
  induction ha generalizing bs ys ms with
  | nil => cases hm; exact .nil
  | cons hx _ ih =>
    cases hb with
    | nil => cases hm; exact .nil
    | cons hy hb =>
      cases hm with
      | cons hz hm =>
        exact .cons (Store.eval_binary_eq_ok.mpr ⟨_, _, hx, hy, eq_ok_of_toOption hz⟩) (ih hb hm)

namespace Denotes

theorem yield {v : Value} {d : Datum} (h : Denotes s v d) : Yield s v.scalars d.numbers := by
  cases v <;> cases d <;> simp_all [Denotes, Value.scalars, Datum.numbers]

theorem unary {op : PrefixOp} {v : Value} {d d' : Datum} (h : Denotes s v d)
    (hd : d.unary op = some d') : Denotes s (v.unary op) d' := by
  have step : ∀ e n m, s.eval e = .ok n → (op.apply n).toOption = some m →
      s.eval (.unary op e) = .ok m :=
    fun e n m he hm => Store.eval_unary_eq_ok.mpr ⟨n, he, eq_ok_of_toOption hm⟩
  cases v <;> cases d
  case scalar.number e n =>
    obtain ⟨m, hm, rfl⟩ := Option.map_eq_some_iff.mp hd
    exact step e n m h hm
  case vector.array es ns =>
    obtain ⟨ms, hms, rfl⟩ := Option.map_eq_some_iff.mp hd
    exact Yield.map h step hms
  all_goals exact h.elim

theorem binary {op : InfixOp} {v w u : Value} {x y z : Datum} (hv : Denotes s v x)
    (hw : Denotes s w y) (hz : x.binary op y = some z) (hu : v.binary op w = .ok u) :
    Denotes s u z := by
  have step : ∀ a b n m k, s.eval a = .ok n → s.eval b = .ok m →
      (op.apply n m).toOption = some k → s.eval (.binary a op b) = .ok k :=
    fun a b n m k ha hb hk => Store.eval_binary_eq_ok.mpr ⟨n, m, ha, hb, eq_ok_of_toOption hk⟩
  cases v <;> cases x
  case scalar.array | vector.number => exact hv.elim
  all_goals cases w <;> cases y
  case scalar.number.scalar.number a n b m =>
    obtain ⟨k, hk, rfl⟩ := Option.map_eq_some_iff.mp hz
    obtain rfl := Except.ok.inj hu
    exact step a b n m k hv hw hk
  case scalar.number.vector.array a n bs ms =>
    obtain ⟨ks, hks, rfl⟩ := Option.map_eq_some_iff.mp hz
    obtain rfl := Except.ok.inj hu
    exact Yield.map hw (fun b m k hb hk => step a b n m k hv hb hk) hks
  case vector.array.scalar.number as ns b m =>
    obtain ⟨ks, hks, rfl⟩ := Option.map_eq_some_iff.mp hz
    obtain rfl := Except.ok.inj hu
    exact Yield.map hv (fun a n k ha hk => step a b n m k ha hw hk) hks
  case vector.array.vector.array as ns bs ms =>
    simp only [Datum.binary] at hz
    split at hz
    · obtain ⟨ks, hks, rfl⟩ := Option.map_eq_some_iff.mp hz
      simp only [Value.binary] at hu
      split at hu
      · obtain rfl := Except.ok.inj hu
        exact Yield.zipWith hv hw hks
      · cases hu
    · cases hz
  all_goals exact hw.elim

/-- Joining expressions from the left denotes what joining their values yields. -/
theorem joinAll {op : InfixOp} {e : Target.Expr} {n m : Number} {es : List Target.Expr}
    {ns : List Number} {v : Value} (he : s.eval e = .ok n) (hes : Yield s es ns)
    (hm : ns.foldlM (fun a b => (op.apply a b).toOption) n = some m)
    (hv : Value.joinAll op (.scalar e) es = .ok v) : Denotes s v (.number m) := by
  induction hes generalizing e n with
  | nil =>
    obtain rfl : n = m := Option.some.inj hm
    obtain rfl := Except.ok.inj hv
    exact he
  | cons he' _ ih =>
    rw [List.foldlM_cons] at hm
    obtain ⟨k, hk, hm⟩ := Option.bind_eq_some_iff.mp hm
    exact ih (Store.eval_binary_eq_ok.mpr ⟨_, _, he, he', eq_ok_of_toOption hk⟩) hm hv

theorem reduce {op : FoldOp} {vs : List Value} {ds : List Datum} {v : Value} {d : Datum}
    (h : List.Forall₂ (Denotes s) vs ds) (hd : Datum.fold op ds = some d)
    (hv : Value.reduce op.op (.scalar (.literal op.start)) vs = .ok v) : Denotes s v d := by
  obtain ⟨m, hm, rfl⟩ := Option.map_eq_some_iff.mp hd
  have hall : Yield s (vs.flatMap Value.scalars) (ds.flatMap Datum.numbers) :=
    List.rel_flatMap h fun _ _ => yield
  exact joinAll (e := .literal op.start) rfl hall hm hv

end Denotes

end

/-! ## Computations -/

omit [Elementary] in
theorem Lower.bind_eq_ok {α β : Type} {m : Lower α} {f : α → Lower β} {c c' : List String}
    {b : β} (h : (m >>= f) c = .ok b c') : ∃ a c₁, m c = .ok a c₁ ∧ f a c₁ = .ok b c' := by
  change EStateM.bind m f c = .ok b c' at h
  unfold EStateM.bind at h
  split at h
  · exact ⟨_, _, ‹_›, h⟩
  · cases h

omit [Elementary] in
theorem Lower.ofExcept_eq_ok {ε α : Type} {fault : ε → Fault} {x : Except ε α} {a : α}
    {c c' : List String} (h : Lower.ofExcept fault x c = .ok a c') : x = .ok a := by
  cases x with
  | error e => cases h
  | ok b => cases h; rfl

/-- **A computation of a value**: what it yields, if it yields anything, denotes `d` in every store
of `S`. -/
def Computes (S : Store → Prop) (m : Lower Value) (d : Datum) : Prop :=
  ∀ c v c', m c = .ok v c' → ∀ s, S s → Denotes s v d

/-- **What stands around an expression keeps step** with its direct evaluation: the variables, and the
calls of functions. -/
structure ComputesAround (S : Store → Prop) (var : String → Lower Value)
    (call : String → List (Lower Value) → Lower Value) (var' : String → Option Datum)
    (call' : String → List Datum → Option Datum) : Prop where
  var : ∀ x d, var' x = some d → Computes S (var x) d
  call : ∀ f args ds d, List.Forall₂ (Computes S) args ds → call' f ds = some d →
    Computes S (call f args) d

section
variable {S : Store → Prop} {var : String → Lower Value}
  {call : String → List (Lower Value) → Lower Value} {var' : String → Option Datum}
  {call' : String → List Datum → Option Datum}

theorem computes_reduce {op : FoldOp} {m : Lower (List Value)} {ds : List Datum} {d : Datum}
    (hm : ∀ c vs c', m c = .ok vs c' → ∀ s, S s → List.Forall₂ (Denotes s) vs ds)
    (hd : Datum.fold op ds = some d) : Computes S (m >>= Lower.reduce op) d := by
  intro c v c' h s hs
  obtain ⟨vs, c₁, hvs, hv⟩ := Lower.bind_eq_ok h
  exact Denotes.reduce (hm _ _ _ hvs s hs) hd (Lower.ofExcept_eq_ok hv)

mutual

/-- Lowering an expression keeps step with its direct evaluation, if what stands around it does. -/
theorem computes_expr (around : ComputesAround S var call var' call') :
    ∀ (e : Source.Expr) (d : Datum), e.eval var' call' = some d →
    Computes S (Lower.expr var call e) d
  | .literal n, d, h => by
      intro c v c' hv s _
      simp only [Source.Expr.eval, Option.some.injEq] at h
      subst h
      cases hv
      rfl
  | .ident x, d, h => by
      rw [Source.Expr.eval] at h
      rw [Lower.expr]
      exact around.var x d h
  | .unary op e, d, h => by
      intro c v c' hv s hs
      rw [Source.Expr.eval] at h
      obtain ⟨d₁, he, h⟩ := Option.bind_eq_some_iff.mp h
      rw [Lower.expr] at hv
      obtain ⟨v₁, c₁, hv₁, hv⟩ := Lower.bind_eq_ok hv
      cases hv
      exact (computes_expr around e d₁ he _ _ _ hv₁ s hs).unary h
  | .binary l op r, d, h => by
      intro c v c' hv s hs
      rw [Source.Expr.eval] at h
      obtain ⟨x, hl, h⟩ := Option.bind_eq_some_iff.mp h
      obtain ⟨y, hr, h⟩ := Option.bind_eq_some_iff.mp h
      rw [Lower.expr] at hv
      obtain ⟨v₁, c₁, hv₁, hv⟩ := Lower.bind_eq_ok hv
      obtain ⟨v₂, c₂, hv₂, hv⟩ := Lower.bind_eq_ok hv
      have hleft := computes_expr around l x hl _ _ _ hv₁ s hs
      have hright := computes_expr around r y hr _ _ _ hv₂ s hs
      exact hleft.binary hright h (Lower.ofExcept_eq_ok hv)
  | .call f args, d, h => by
      rw [Source.Expr.eval] at h
      obtain ⟨ds, hds, h⟩ := Option.bind_eq_some_iff.mp h
      rw [Lower.expr]
      cases hf : FoldOp.ofName? f with
      | some op =>
        rw [hf] at h
        exact computes_reduce (denotes_exprs around args ds hds) h
      | none =>
        rw [hf] at h
        exact around.call f _ ds d (computes_delayed around args ds hds) h
  | .fold op args, d, h => by
      rw [Source.Expr.eval] at h
      obtain ⟨fold, hfold, h⟩ := Option.bind_eq_some_iff.mp h
      obtain ⟨ds, hds, h⟩ := Option.bind_eq_some_iff.mp h
      rw [Lower.expr, hfold]
      exact computes_reduce (denotes_exprs around args ds hds) h
  | .array items, d, h => by
      intro c v c' hv s hs
      rw [Source.Expr.eval] at h
      obtain ⟨ds, hds, h⟩ := Option.bind_eq_some_iff.mp h
      obtain ⟨ns, hns, rfl⟩ := Option.map_eq_some_iff.mp h
      rw [Lower.expr] at hv
      obtain ⟨es, c₁, hes, hv⟩ := Lower.bind_eq_ok hv
      cases hv
      exact yield_elements around items ds hds ns (forall₂_of_mapM hns) _ _ _ hes s hs
  | .stray node, d, h => by cases h

theorem denotes_exprs (around : ComputesAround S var call var' call') :
    ∀ (es : List Source.Expr) (ds : List Datum),
    Source.Expr.evalAll var' call' es = some ds → ∀ c vs c',
    Lower.exprs var call es c = .ok vs c' → ∀ s, S s → List.Forall₂ (Denotes s) vs ds
  | [], ds, h, c, vs, c', hvs, s, _ => by
      cases h
      cases hvs
      exact .nil
  | e :: es, ds, h, c, vs, c', hvs, s, hs => by
      rw [Source.Expr.evalAll] at h
      obtain ⟨d, he, h⟩ := Option.bind_eq_some_iff.mp h
      obtain ⟨ds', hes, h⟩ := Option.bind_eq_some_iff.mp h
      obtain rfl := Option.some.inj h
      rw [Lower.exprs] at hvs
      obtain ⟨v, c₁, hv, hvs⟩ := Lower.bind_eq_ok hvs
      obtain ⟨vs', c₂, hvs', hvs⟩ := Lower.bind_eq_ok hvs
      cases hvs
      exact .cons (computes_expr around e d he _ _ _ hv s hs)
        (denotes_exprs around es ds' hes _ _ _ hvs' s hs)

theorem yield_elements (around : ComputesAround S var call var' call') :
    ∀ (es : List Source.Expr) (ds : List Datum),
    Source.Expr.evalAll var' call' es = some ds → ∀ ns : List Number,
    List.Forall₂ (fun d n => d.number? = some n) ds ns → ∀ c xs c',
    Lower.elements var call es c = .ok xs c' → ∀ s, S s → Yield s xs ns
  | [], ds, h, ns, hns, c, xs, c', hxs, s, _ => by
      cases h
      cases hns
      cases hxs
      exact .nil
  | e :: es, ds, h, ns, hns, c, xs, c', hxs, s, hs => by
      rw [Source.Expr.evalAll] at h
      obtain ⟨d, he, h⟩ := Option.bind_eq_some_iff.mp h
      obtain ⟨ds', hes, h⟩ := Option.bind_eq_some_iff.mp h
      obtain rfl := Option.some.inj h
      rw [Lower.elements] at hxs
      obtain ⟨v, c₁, hv, hxs⟩ := Lower.bind_eq_ok hxs
      obtain ⟨x, c₂, hx, hxs⟩ := Lower.bind_eq_ok hxs
      obtain ⟨xs', c₃, hxs', hxs⟩ := Lower.bind_eq_ok hxs
      cases hxs
      cases hns with
      | cons hn hns =>
        have hden := computes_expr around e d he _ _ _ hv s hs
        refine .cons ?_ (yield_elements around es ds' hes _ hns _ _ _ hxs' s hs)
        cases v <;> cases d
        case scalar.number => cases hx; cases hn; exact hden
        case vector.array => cases hn
        all_goals exact hden.elim

theorem computes_delayed (around : ComputesAround S var call var' call') :
    ∀ (es : List Source.Expr) (ds : List Datum),
    Source.Expr.evalAll var' call' es = some ds →
    List.Forall₂ (Computes S) (Lower.delayed var call es) ds
  | [], ds, h => by
      cases h
      exact .nil
  | e :: es, ds, h => by
      rw [Source.Expr.evalAll] at h
      obtain ⟨d, he, h⟩ := Option.bind_eq_some_iff.mp h
      obtain ⟨ds', hes, h⟩ := Option.bind_eq_some_iff.mp h
      obtain rfl := Option.some.inj h
      rw [Lower.delayed]
      exact .cons (computes_expr around e d he) (computes_delayed around es ds' hes)

end

end

/-! ## Calls -/

omit [Elementary] in
/-- Two lists that are related member by member stay so when they are looked up under the same
names. -/
theorem get?_zip_of_forall₂ {α β : Type} {R : α → β → Prop} {as : List α} {bs : List β}
    (h : List.Forall₂ R as bs) (names : List String) {x : String} {b : β}
    (hb : Table.get? (names.zip bs) x = some b) :
    ∃ a, Table.get? (names.zip as) x = some a ∧ R a b := by
  induction names generalizing as bs with
  | nil => cases hb
  | cons n names ih =>
    cases h with
    | nil => cases hb
    | cons hr h =>
      rw [List.zip_cons_cons, Table.get?_cons] at hb ⊢
      split at hb
      · obtain rfl := Option.some.inj hb
        exact ⟨_, if_pos ‹_›, hr⟩
      · rw [if_neg ‹_›]
        exact ih h hb

/-- Inlining a call keeps step with evaluating it. -/
theorem computes_call (scope : Scope) (S : Store → Prop) (bound : Nat) :
    ∀ (depth : Nat) (f : String) (args : List (Lower Value)) (ds : List Datum) (d : Datum),
      List.Forall₂ (Computes S) args ds → evalCall scope.functions depth f ds = some d →
      Computes S (Lower.call scope bound f args) d := by
  induction bound with
  | zero =>
    intro depth f args ds d _ _ c v c' hv
    cases hv
  | succ bound ih =>
    intro depth f args ds d hargs hd c v c' hv s hs
    cases depth with
    | zero => cases hd
    | succ depth =>
      rw [evalCall] at hd
      obtain ⟨fn, hfn, hd⟩ := Option.bind_eq_some_iff.mp hd
      rw [Lower.call] at hv
      obtain ⟨fn', c₁, hfn', hv⟩ := Lower.bind_eq_ok hv
      obtain ⟨_, c₂, _, hv⟩ := Lower.bind_eq_ok hv
      obtain rfl : fn' = fn := by
        have := Lower.ofExcept_eq_ok hfn'
        rw [Scope.definitionOf, hfn] at this
        exact (Except.ok.inj this).symm
      split at hd
      · split at hv
        · -- the body reads its parameters only, so their computations are all it needs
          refine computes_expr ⟨?_, ih depth⟩ fn'.body d hd _ _ _ hv s hs
          intro x d' hx
          obtain ⟨arg, harg, hcomp⟩ := get?_zip_of_forall₂ hargs fn'.params hx
          rw [Lower.local?, harg]
          exact hcomp
        · cases hv
      · cases hd

/-- **Lowering an expression keeps step with its direct evaluation**, in every store in which the
bound variables denote their values. -/
theorem computes_lower {scope : Scope} {env : Environment} {S : Store → Prop}
    (hfun : scope.functions = env.functions)
    (hvar : ∀ x d, env.values.get? x = some d → ∃ v, scope.bindings.get? x = some v ∧
      ∀ s, S s → Denotes s v d)
    {depth : Nat} {e : Source.Expr} {d : Datum} (hd : env.eval depth e = some d) :
    Computes S (lower scope e) d := by
  refine computes_expr ⟨?_, ?_⟩ e d hd
  · intro x d' hx c v c' hv s hs
    obtain ⟨v', hv', hden⟩ := hvar x d' hx
    have := Lower.ofExcept_eq_ok hv
    rw [Scope.valueOf, hv'] at this
    obtain rfl := Except.ok.inj this
    exact hden s hs
  · intro f args ds d' hargs hd'
    exact computes_call scope S _ depth f args ds d' hargs (hfun ▸ hd')

end Straightline
