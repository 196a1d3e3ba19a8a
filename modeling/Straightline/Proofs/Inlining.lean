import Mathlib.Data.List.Perm.Subperm
import Straightline.Proofs.Recursion

/-!
# Inlining ends

`Inlines` says what the lowering of an expression comes to by rules alone.  A call is replaced by the
body of the function, with the arguments in the place of the parameters, and the lowering goes on with
the expression that this gives.  The expression may be larger than the call, and there is no bound on
how often such a step is taken; but a derivation is finite, so an expression for which there is one is
lowered in the end.

Two facts carry the main result.  `follows_lower`: what `lower` computes, if it does not run out of its
bound on nested calls, is derived by the rules, although it hands arguments on as computations and
replaces nothing.  `ends_lower`: with a memory free of cycles it does not run out of its bound.  The
functions whose bodies are being lowered at one time are in memory and lead to each other, so they are
different, and there are no more of them than functions.
-/

namespace Straightline

open Lower (Outcome)
open Relation (TransGen)
open Definition (Calls CycleFree substitute substituteAll)

namespace Lower.Outcome

variable {α β : Type}

/-- Goes on with a result; a fault stays. -/
def andThen (o : Outcome α) (next : α → Lower β) : Outcome β :=
  match o with
  | .ok a c => next a c
  | .error fault c => .error fault c

/-- **The bound on nested calls is not used up.** -/
def Ends (o : Outcome α) : Prop := ∀ f c, o ≠ .error (.endlessCall f) c

end Lower.Outcome

section
variable {α β : Type} {m : Lower α} {next : α → Lower β} {c : List String}

theorem Lower.bind_cases (m : Lower α) (next : α → Lower β) (c : List String) :
    (∃ a d, m c = .ok a d ∧ (m >>= next) c = next a d) ∨
      ∃ fault d, m c = .error fault d ∧ (m >>= next) c = .error fault d := by
  cases h : m c with
  | ok a d => exact Or.inl ⟨a, d, rfl, bind_of_ok h⟩
  | error fault d => exact Or.inr ⟨fault, d, rfl, bind_of_error h⟩

theorem Lower.bind_apply (m : Lower α) (next : α → Lower β) (c : List String) :
    (m >>= next) c = Outcome.andThen (m c) next := by
  obtain ⟨a, d, h, hbind⟩ | ⟨fault, d, h, hbind⟩ := bind_cases m next c
  · rw [hbind, h, Outcome.andThen]
  · rw [hbind, h, Outcome.andThen]

theorem Lower.Outcome.Ends.of_bind (h : Outcome.Ends ((m >>= next) c)) : Outcome.Ends (m c) :=
  fun f d hm => h f d (Lower.bind_of_error hm)

end

/-! ## The rules -/

/-- **The expression that a call is replaced by**: the body of the function, if it is defined and passes
the check, with the arguments in the place of the parameters. -/
def Lower.replacement (s : Scope) (f : String) (args : List Source.Expr) : Lower Source.Expr := do
  let fn ← ofExcept id (s.definitionOf f)
  checkRecursion s fn
  ofExcept id (fn.instantiate args)

mutual

/-- **What the lowering of an expression comes to**, in a scope and with a memory. -/
inductive Inlines (s : Scope) : Source.Expr → List String → Outcome Value → Prop
  | literal {n c} : Inlines s (.literal n) c (.ok (.scalar (.literal n)) c)
  | ident {x c} : Inlines s (.ident x) c (Lower.ofExcept id (s.valueOf x) c)
  | unary {op e c o} (operand : Inlines s e c o) :
    Inlines s (.unary op e) c (o.andThen fun v => pure (v.unary op))
  | binary {l op r c a d o} (left : Inlines s l c (.ok a d)) (right : Inlines s r d o) :
    Inlines s (.binary l op r) c
      (o.andThen fun b => Lower.ofExcept .mismatchedArrays (a.binary op b))
  | binaryLeft {l op r c fault d} (left : Inlines s l c (.error fault d)) :
    Inlines s (.binary l op r) c (.error fault d)
  | builtin {f op args c o} (name : FoldOp.ofName? f = some op) (operands : InlinesAll s args c o) :
    Inlines s (.call f args) c (o.andThen (Lower.reduce op))
  | refused {f args c fault d} (name : FoldOp.ofName? f = none)
      (refusal : Lower.replacement s f args c = .error fault d) :
    Inlines s (.call f args) c (.error fault d)
  | call {f args c body d o} (name : FoldOp.ofName? f = none)
      (replaced : Lower.replacement s f args c = .ok body d) (inlined : Inlines s body d o) :
    Inlines s (.call f args) c o
  | fold {op fold args c o} (reduction : FoldOp.ofOp? op = some fold)
      (operands : InlinesAll s args c o) :
    Inlines s (.fold op args) c (o.andThen (Lower.reduce fold))
  | noReduction {op args c} (reduction : FoldOp.ofOp? op = none) :
    Inlines s (.fold op args) c (.error (.noReduction op) c)
  | array {items c o} (elements : InlinesElements s items c o) :
    Inlines s (.array items) c (o.andThen fun es => pure (.vector es))
  | stray {node c} : Inlines s (.stray node) c (.error (.misplaced .sourceExpr) c)

/-- What the lowering of several expressions comes to, in order. -/
inductive InlinesAll (s : Scope) : List Source.Expr → List String → Outcome (List Value) → Prop
  | nil {c} : InlinesAll s [] c (.ok [] c)
  | cons {e es c v d o} (head : Inlines s e c (.ok v d)) (tail : InlinesAll s es d o) :
    InlinesAll s (e :: es) c (o.andThen fun vs => pure (v :: vs))
  | consHead {e es c fault d} (head : Inlines s e c (.error fault d)) :
    InlinesAll s (e :: es) c (.error fault d)

/-- What the lowering of the elements of an array comes to, in order. -/
inductive InlinesElements (s : Scope) :
    List Source.Expr → List String → Outcome (List Target.Expr) → Prop
  | nil {c} : InlinesElements s [] c (.ok [] c)
  | cons {e es c x d o} (head : Inlines s e c (.ok (.scalar x) d)) (tail : InlinesElements s es d o) :
    InlinesElements s (e :: es) c (o.andThen fun xs => pure (x :: xs))
  | nested {e es c xs d} (head : Inlines s e c (.ok (.vector xs) d)) :
    InlinesElements s (e :: es) c (.error .nestedArrays d)
  | consHead {e es c fault d} (head : Inlines s e c (.error fault d)) :
    InlinesElements s (e :: es) c (.error fault d)

end

section
variable {s : Scope}

mutual

/-- The rules leave no choice. -/
theorem Inlines.unique : ∀ {e c o}, Inlines s e c o → ∀ {o'}, Inlines s e c o' → o = o'
  | _, _, _, .literal, _, h => by cases h; rfl
  | _, _, _, .ident, _, h => by cases h; rfl
  | _, _, _, .unary operand, _, h => by
      cases h with
      | unary operand' => rw [operand.unique operand']
  | _, _, _, .binary left right, _, h => by
      cases h with
      | binary left' right' =>
        cases left.unique left'
        rw [right.unique right']
      | binaryLeft left' => cases left.unique left'
  | _, _, _, .binaryLeft left, _, h => by
      cases h with
      | binary left' _ => cases left.unique left'
      | binaryLeft left' => rw [left.unique left']
  | _, _, _, .builtin name operands, _, h => by
      cases h with
      | builtin name' operands' =>
        cases name.symm.trans name'
        rw [operands.unique operands']
      | refused name' _ => cases name.symm.trans name'
      | call name' _ _ => cases name.symm.trans name'
  | _, _, _, .refused name refusal, _, h => by
      cases h with
      | builtin name' _ => cases name.symm.trans name'
      | refused _ refusal' => cases refusal.symm.trans refusal'; rfl
      | call _ replaced' _ => cases refusal.symm.trans replaced'
  | _, _, _, .call name replaced inlined, _, h => by
      cases h with
      | builtin name' _ => cases name.symm.trans name'
      | refused _ refusal' => cases replaced.symm.trans refusal'
      | call _ replaced' inlined' =>
        cases replaced.symm.trans replaced'
        exact inlined.unique inlined'
  | _, _, _, .fold reduction operands, _, h => by
      cases h with
      | fold reduction' operands' =>
        cases reduction.symm.trans reduction'
        rw [operands.unique operands']
      | noReduction reduction' => cases reduction.symm.trans reduction'
  | _, _, _, .noReduction reduction, _, h => by
      cases h with
      | fold reduction' _ => cases reduction.symm.trans reduction'
      | noReduction => rfl
  | _, _, _, .array elements, _, h => by
      cases h with
      | array elements' => rw [elements.unique elements']
  | _, _, _, .stray, _, h => by cases h; rfl

theorem InlinesAll.unique : ∀ {es c o}, InlinesAll s es c o → ∀ {o'}, InlinesAll s es c o' → o = o'
  | _, _, _, .nil, _, h => by cases h; rfl
  | _, _, _, .cons head tail, _, h => by
      cases h with
      | cons head' tail' =>
        cases head.unique head'
        rw [tail.unique tail']
      | consHead head' => cases head.unique head'
  | _, _, _, .consHead head, _, h => by
      cases h with
      | cons head' _ => cases head.unique head'
      | consHead head' => 
        cases head.unique head'
        rfl

theorem InlinesElements.unique :
    ∀ {es c o}, InlinesElements s es c o → ∀ {o'}, InlinesElements s es c o' → o = o'
  | _, _, _, .nil, _, h => by cases h; rfl
  | _, _, _, .cons head tail, _, h => by
      cases h with
      | cons head' tail' =>
        cases head.unique head'
        rw [tail.unique tail']
      | nested head' => cases head.unique head'
      | consHead head' => cases head.unique head'
  | _, _, _, .nested head, _, h => by
      cases h with
      | cons head' _ => cases head.unique head'
      | nested head' => cases head.unique head'; rfl
      | consHead head' => cases head.unique head'
  | _, _, _, .consHead head, _, h => by
      cases h with
      | cons head' _ => cases head.unique head'
      | nested head' => cases head.unique head'
      | consHead head' => cases head.unique head'; rfl

end

end

/-! ## What is computed is derived -/

section
variable {s : Scope}

/-- **A computation follows the rules** for an expression, as far as it ends. -/
def Follows (s : Scope) (m : Lower Value) (e : Source.Expr) : Prop :=
  ∀ c, Outcome.Ends (m c) → Inlines s e c (m c)

/-- **What stands around an expression follows the rules**: the variables, for what is put in their place,
and the calls of functions. -/
structure FollowsAround (s : Scope) (σ : Table Source.Expr) (var : String → Lower Value)
    (call : String → List (Lower Value) → Lower Value) : Prop where
  var : ∀ x, Follows s (var x) (substitute σ (.ident x))
  call : ∀ f ms es, FoldOp.ofName? f = none → List.Forall₂ (Follows s) ms es →
    Follows s (call f ms) (.call f es)

section
variable {σ : Table Source.Expr} {var : String → Lower Value}
  {call : String → List (Lower Value) → Lower Value}

mutual

/-- Lowering an expression follows the rules for what it becomes when expressions are put in the place
of its variables, if what stands around it does. -/
theorem follows_expr (around : FollowsAround s σ var call) :
    ∀ e : Source.Expr, Follows s (Lower.expr var call e) (substitute σ e)
  | .literal n, c, _ => by
      rw [Lower.expr, substitute]
      · exact .literal
      all_goals nofun
  | .ident x, c, hends => by
      rw [Lower.expr] at hends ⊢
      exact around.var x c hends
  | .unary op e, c, hends => by
      rw [Lower.expr] at hends ⊢
      rw [substitute, Lower.bind_apply]
      exact .unary (follows_expr around e c hends.of_bind)
  | .binary l op r, c, hends => by
      rw [Lower.expr] at hends ⊢
      rw [substitute]
      have hl := follows_expr around l c hends.of_bind
      obtain ⟨a, d, h, hbind⟩ | ⟨fault, d, h, hbind⟩ := Lower.bind_cases (Lower.expr var call l) _ c
      · rw [hbind] at hends ⊢
        rw [h] at hl
        rw [Lower.bind_apply]
        exact .binary hl (follows_expr around r d hends.of_bind)
      · rw [hbind]
        rw [h] at hl
        exact .binaryLeft hl
  | .call f args, c, hends => by
      rw [Lower.expr] at hends ⊢
      rw [substitute]
      cases hf : FoldOp.ofName? f with
      | some op =>
        rw [hf] at hends
        simp only at hends ⊢
        rw [Lower.bind_apply]
        exact .builtin hf (follows_exprs around args c hends.of_bind)
      | none =>
        rw [hf] at hends
        exact around.call f _ _ hf (follows_delayed around args) c hends
  | .fold op args, c, hends => by
      rw [Lower.expr] at hends ⊢
      rw [substitute]
      cases hop : FoldOp.ofOp? op with
      | some fold =>
        rw [hop] at hends
        simp only at hends ⊢
        rw [Lower.bind_apply]
        exact .fold hop (follows_exprs around args c hends.of_bind)
      | none => exact .noReduction hop
  | .array items, c, hends => by
      rw [Lower.expr] at hends ⊢
      rw [substitute, Lower.bind_apply]
      exact .array (follows_elements around items c hends.of_bind)
  | .stray node, c, _ => by
      rw [Lower.expr, substitute]
      · exact .stray
      all_goals nofun

theorem follows_exprs (around : FollowsAround s σ var call) :
    ∀ (es : List Source.Expr) (c : List String),
    Outcome.Ends (Lower.exprs var call es c) →
    InlinesAll s (substituteAll σ es) c (Lower.exprs var call es c)
  | [], c, _ => by
      rw [Lower.exprs, substituteAll]
      exact .nil
  | e :: es, c, hends => by
      rw [Lower.exprs] at hends ⊢
      rw [substituteAll]
      have he := follows_expr around e c hends.of_bind
      obtain ⟨v, d, h, hbind⟩ | ⟨fault, d, h, hbind⟩ := Lower.bind_cases (Lower.expr var call e) _ c
      · rw [hbind] at hends ⊢
        rw [h] at he
        rw [Lower.bind_apply]
        exact .cons he (follows_exprs around es d hends.of_bind)
      · rw [hbind]
        rw [h] at he
        exact .consHead he

theorem follows_elements (around : FollowsAround s σ var call) :
    ∀ (es : List Source.Expr) (c : List String),
    Outcome.Ends (Lower.elements var call es c) →
    InlinesElements s (substituteAll σ es) c (Lower.elements var call es c)
  | [], c, _ => by
      rw [Lower.elements, substituteAll]
      exact .nil
  | e :: es, c, hends => by
      rw [Lower.elements] at hends ⊢
      rw [substituteAll]
      have he := follows_expr around e c hends.of_bind
      obtain ⟨v, d, h, hbind⟩ | ⟨fault, d, h, hbind⟩ := Lower.bind_cases (Lower.expr var call e) _ c
      · rw [hbind] at hends ⊢
        rw [h] at he
        cases v with
        | scalar x =>
          change Outcome.Ends ((Lower.elements var call es >>= fun xs => pure (x :: xs)) d) at hends
          change InlinesElements s _ c ((Lower.elements var call es >>= fun xs => pure (x :: xs)) d)
          rw [Lower.bind_apply]
          exact .cons he (follows_elements around es d hends.of_bind)
        | vector xs => exact .nested he
      · rw [hbind]
        rw [h] at he
        exact .consHead he

theorem follows_delayed (around : FollowsAround s σ var call) : ∀ es : List Source.Expr,
    List.Forall₂ (Follows s) (Lower.delayed var call es) (substituteAll σ es)
  | [] => by
      rw [Lower.delayed, substituteAll]
      exact .nil
  | e :: es => by
      rw [Lower.delayed, substituteAll]
      exact .cons (follows_expr around e) (follows_delayed around es)

end

end

/-- Inlining a call follows the rules, if the arguments do. -/
theorem follows_call (depth : Nat) : ∀ f ms es, FoldOp.ofName? f = none →
    List.Forall₂ (Follows s) ms es → Follows s (Lower.call s depth f ms) (.call f es) := by
  induction depth with
  | zero => exact fun f ms es _ _ c hends => absurd rfl (hends f c)
  | succ depth ih =>
    intro f ms es hname hargs c hends
    cases hfn : s.functions.get? f with
    | none =>
      have hdef : s.definitionOf f = .error (.undefinedFunction f) := by rw [Scope.definitionOf, hfn]
      rw [Lower.call_of_undefined hfn]
      refine .refused hname ?_
      rw [Lower.replacement, hdef]
      rfl
    | some fn =>
      have hdef : s.definitionOf f = .ok fn := by rw [Scope.definitionOf, hfn]
      have hreplacement : Lower.replacement s f es c =
          (Lower.checkRecursion s fn >>= fun _ => Lower.ofExcept id (fn.instantiate es)) c := by
        rw [Lower.replacement, hdef]
        rfl
      cases hcheck : Lower.checkRecursion s fn c with
      | error fault d =>
        rw [Lower.call_of_refused hfn hcheck]
        exact .refused hname (hreplacement.trans (Lower.bind_of_error hcheck))
      | ok u d =>
        replace hreplacement := hreplacement.trans (Lower.bind_of_ok hcheck)
        rw [Lower.call_of_checked hfn hcheck] at hends ⊢
        rw [hargs.length_eq] at hends ⊢
        rw [Definition.instantiate] at hreplacement
        by_cases hlen : es.length = fn.params.length
        · rw [if_pos hlen] at hends hreplacement ⊢
          refine .call hname hreplacement (follows_expr ⟨?_, ih⟩ fn.body d hends)
          intro x
          unfold Lower.local? substitute
          obtain ⟨h, h'⟩ | ⟨m, e, h, h', hfollows⟩ := Lower.get?_zip_cases hargs fn.params x <;>
            rw [h, h']
          · exact fun _ _ => .ident
          · exact hfollows
        · rw [if_neg hlen] at hreplacement ⊢
          exact .refused hname hreplacement

mutual

theorem substitute_nil : ∀ e : Source.Expr, substitute [] e = e
  | .literal _ | .ident _ | .stray _ => rfl
  | .unary op e => by rw [substitute, substitute_nil e]
  | .binary l op r => by rw [substitute, substitute_nil l, substitute_nil r]
  | .call f args => by rw [substitute, substituteAll_nil args]
  | .fold op args => by rw [substitute, substituteAll_nil args]
  | .array items => by rw [substitute, substituteAll_nil items]

theorem substituteAll_nil : ∀ es : List Source.Expr, substituteAll [] es = es
  | [] => rfl
  | e :: es => by rw [substituteAll, substitute_nil e, substituteAll_nil es]

end

/-- **What is computed is derived**, as far as it ends. -/
theorem follows_lower (s : Scope) (e : Source.Expr) : Follows s (lower s e) e := by
  have h : Follows s (lower s e) (substitute [] e) :=
    follows_expr ⟨fun _ _ _ => .ident, follows_call (s.functions.length + 1)⟩ e
  rwa [substitute_nil] at h

end

/-! ## The bound on nested calls -/

theorem Table.mem_names_of_has {α : Type} {t : Table α} {x : String} (h : t.has x = true) :
    x ∈ t.names := by
  induction t with
  | nil => cases h
  | cons e t ih =>
    by_cases hx : x = e.1
    · exact hx ▸ List.mem_cons_self
    · refine List.mem_cons_of_mem _ (ih ?_)
      rwa [Table.has, Table.get?_cons, if_neg hx] at h

/-- **The functions whose bodies are being lowered** when `f` is called: they are different, and each of
them leads to `f` along calls between them. -/
structure Active (functions : Table Definition) (active : List String) (f : String) : Prop where
  nodup : active.Nodup
  known : ∀ g ∈ active, functions.has g = true
  leads : ∀ g ∈ active, TransGen (fun x y => x ∈ active ∧ Calls functions x y) g f

namespace Active

variable {functions : Table Definition} {active c : List String} {f g : String}

theorem nil : Active functions [] f := ⟨List.nodup_nil, nofun, nofun⟩

theorem length_le (h : Active functions active f) : active.length ≤ functions.length := by
  have hnames : active ⊆ functions.names := fun g hg => Table.mem_names_of_has (h.known g hg)
  have hlen := (h.nodup.subperm hnames).length_le
  rwa [Table.names, List.length_map] at hlen

/-- Among functions in a memory free of cycles, the function called is not there yet, and it leads to
those that it calls. -/
theorem push (h : Active functions active f) (hf : functions.has f = true)
    (hfree : CycleFree functions c) (hactive : active ⊆ c) (hcalls : Calls functions f g) :
    Active functions (f :: active) g := by
  have hnew : f ∉ active := fun hmem =>
    hfree f (TransGen.mono (fun x y ⟨hx, hxy⟩ => ⟨hactive hx, hxy⟩) f f (h.leads f hmem))
  refine ⟨List.nodup_cons.mpr ⟨hnew, h.nodup⟩, List.forall_mem_cons.mpr ⟨hf, h.known⟩, ?_⟩
  refine List.forall_mem_cons.mpr ⟨.single ⟨List.mem_cons_self, hcalls⟩, fun k hk => ?_⟩
  have hpath : TransGen (fun x y => x ∈ f :: active ∧ Calls functions x y) k f :=
    TransGen.mono (fun x y ⟨hx, hxy⟩ => ⟨List.mem_cons_of_mem f hx, hxy⟩) k f (h.leads k hk)
  exact hpath.tail ⟨List.mem_cons_self, hcalls⟩

end Active

/-- A memory, beside itself, that is free of cycles and holds some functions. -/
def Steady (functions : Table Definition) (active c c' : List String) : Prop :=
  c = c' ∧ CycleFree functions c ∧ active ⊆ c

theorem Steady.of_cons {functions : Table Definition} {active c c' : List String} {f : String}
    (h : Steady functions (f :: active) c c') : Steady functions active c c' :=
  ⟨h.1, h.2.1, List.Subset.trans (List.subset_cons_self f active) h.2.2⟩

/-- A computation that keeps a memory steady keeps it so with more functions in it. -/
theorem Lower.Coupled.steady_cons {α : Type} {functions : Table Definition} {active : List String}
    {P : α → Prop} {E : Fault → Prop} {m m' : Lower α}
    (h : Coupled (Steady functions active) P E m m') (f : String) :
    Coupled (Steady functions (f :: active)) P E m m' :=
  h.narrow (fun _ _ => Steady.of_cons)
    fun _ _ _ _ hc hd hgrown _ => ⟨hd.1, hd.2.1, List.Subset.trans hc.2.2 hgrown⟩

/-- **Two computations that do not use up the bound on nested calls**, as long as the memory is free of
cycles and holds the functions whose bodies are being lowered. -/
abbrev Finish (functions : Table Definition) (active : List String) (m m' : Lower Value) : Prop :=
  Lower.Coupled (Steady functions active) (Value.Made fun _ => True)
    (fun fault => ∀ f, fault ≠ .endlessCall f) m m'

section
variable {s : Scope} (hkeyed : ∀ k f, s.functions.get? k = some f → f.name = k)

include hkeyed

/-- Inlining a call does not use up a bound that leaves room for all functions, if the arguments do
not. -/
theorem finish_call (depth : Nat) : ∀ (active : List String) (f : String)
    (args args' : List (Lower Value)), Active s.functions active f →
    s.functions.length < active.length + depth →
    List.Forall₂ (Finish s.functions active) args args' →
    Finish s.functions active (Lower.call s depth f args) (Lower.call s depth f args') := by
  induction depth with
  | zero =>
    intro active f args args' hcalled hbound _
    exact absurd hcalled.length_le (Nat.not_le_of_lt hbound)
  | succ depth ih =>
    rintro active f args args' hcalled hbound hargs c _ ⟨rfl, hfree, hactive⟩
    cases hfn : s.functions.get? f with
    | none =>
      rw [Lower.call_of_undefined hfn, Lower.call_of_undefined hfn]
      exact .error (by rintro _ ⟨⟩) ⟨rfl, hfree, hactive⟩ (List.Subset.refl c) (List.Subset.refl c)
    | some fn =>
      obtain rfl := hkeyed f fn hfn
      obtain hcheck | ⟨d, hcheck, hcd, hmem, hfree'⟩ := Definition.checkRecursion_of_cycleFree hfn hfree
      · rw [Lower.call_of_refused hfn hcheck, Lower.call_of_refused hfn hcheck]
        exact .error (by rintro _ ⟨⟩) ⟨rfl, hfree, hactive⟩ (List.Subset.refl c) (List.Subset.refl c)
      rw [Lower.call_of_checked hfn hcheck, Lower.call_of_checked hfn hcheck, hargs.length_eq]
      split
      · -- the body is lowered with the function among those that are active
        have hbody : Finish s.functions (fn.name :: active)
            (Lower.expr (Lower.local? s (fn.params.zip args)) (Lower.call s depth) fn.body)
            (Lower.expr (Lower.local? s (fn.params.zip args')) (Lower.call s depth) fn.body) := by
          refine Lower.coupled_expr (F := Calls s.functions fn.name) ⟨hereditary_true, fun _ h => h,
            ?_, ?_⟩ fn.body fun g hg => ⟨fn, hfn, List.mem_eraseDups.mpr hg⟩
          · exact Lower.coupled_local (fun _ _ _ _ _ => trivial) (fun _ h => h)
              (hargs.imp fun _ _ h => h.steady_cons fn.name) fn.params
          · intro g as as' hg
            refine ih (fn.name :: active) g as as' (hcalled.push ?_ hfree hactive hg) ?_
            · rw [Table.has, hfn]
              rfl
            · rw [List.length_cons]
              omega
        have hstart : Steady s.functions (fn.name :: active) d d :=
          ⟨rfl, hfree', List.cons_subset.mpr ⟨hmem, List.Subset.trans hactive hcd⟩⟩
        exact (hbody d d hstart).weaken (fun _ _ => Steady.of_cons) hcd hcd
      · exact .error (by rintro _ ⟨⟩) ⟨rfl, hfree', List.Subset.trans hactive hcd⟩ hcd hcd

/-- **Lowering does not use up its bound on nested calls**, if the memory is free of cycles. -/
theorem ends_lower {c : List String} (hfree : CycleFree s.functions c) (e : Source.Expr) :
    Outcome.Ends (lower s e c) := by
  have hfinish : Finish s.functions [] (lower s e) (lower s e) := by
    refine Lower.coupled_expr (F := fun _ => True) ⟨hereditary_true, fun _ h => h, ?_, ?_⟩ e
      fun _ _ => trivial
    · exact Lower.coupled_valueOf (fun _ _ _ _ _ => trivial) fun _ h => h
    · exact fun f as as' _ => finish_call hkeyed _ [] f as as' .nil (by simp)
  have hagree := hfinish c c ⟨rfl, hfree, List.nil_subset c⟩
  intro f d hlower
  rw [hlower] at hagree
  cases hagree with
  | error hends => exact hends f rfl

end

/-- **Inlining ends.**  After any statements, accepted or not, and whatever functions are defined and
remembered as checked, the rules derive exactly one outcome of an expression, a value or a fault.  It
is the one that is computed, without using up the bound on nested calls. -/
theorem Session.inlines_after_iff (p : Source.Program) (e : Source.Expr) :
    (∀ o, Inlines (after p).scope e (after p).checked o ↔
      o = lower (after p).scope e (after p).checked) ∧
    ∀ f c, lower (after p).scope e (after p).checked ≠ .error (.endlessCall f) c := by
  have hends := ends_lower (guarded_after p).keyed (guarded_after p).cycleFree e
  have hderived := follows_lower (after p).scope e (after p).checked hends
  exact ⟨fun o => ⟨fun h => h.unique hderived, fun h => h ▸ hderived⟩, hends⟩

/-- A function whose body reduces by an operator without a reduction is accepted, and refused when it is
called. -/
example : (Session.after []).refusal? (.define "f" ["x"] (.fold .sub [.ident "x"])) = none ∧
    (Session.after [.define "f" ["x"] (.fold .sub [.ident "x"])]).refusal?
      (.letVar "a" (.call "f" [.literal .one])) = some (.noReduction .sub) := by
  decide +kernel

end Straightline
