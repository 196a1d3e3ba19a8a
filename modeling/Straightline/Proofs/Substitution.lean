import Straightline.Proofs.Inlining

/-!
# Calling is substituting

A call can be lowered in two ways: by putting the arguments in the place of the parameters and lowering the
expression that this gives, or by lowering the body where the parameters are bound to the values of the
arguments.  Both come to the same value, or to the same fault (`Session.lower_instantiate`).

The body reads nothing but its parameters, and neither does any body that it calls, so the variables around
it make no difference (`Lower.expr_congr_of_checkBody`, `Lower.call_congr`).  An argument is lowered wherever
its parameter is read, with what is in memory by then.  That adds functions that pass the check anyway, so
the argument comes to the same value each time (`coupled_argument`).
-/

namespace Straightline

open Lower (Outcome)
open Definition (Recursive CycleFree checkBody checkAll checkRecursion_cases substitute)

/-- What a lowering comes to, without the memory that it leaves. -/
def Lower.Outcome.result {α : Type} : Outcome α → Except Fault α
  | .ok a _ => .ok a
  | .error fault _ => .error fault

namespace Lower.Outcome.Agree

variable {α : Type} {R : List String → List String → Prop} {P : α → Prop} {E : Fault → Prop}
  {c c' : List String} {o o' : Outcome α}

theorem result_eq (h : Agree R P E c c' o o') : o.result = o'.result := by
  cases h with
  | ok => rfl
  | error => rfl

theorem ends (h : Agree R P E c c' o o') (hends : o'.Ends) : o.Ends := by
  cases h with
  | ok => nofun
  | error =>
    rintro f d ⟨⟩
    exact hends f _ rfl

end Lower.Outcome.Agree

/-! ## Bodies and their parameters -/

theorem Definition.define_eq_ok {name : String} {params : List String} {body : Source.Expr}
    {f : Definition} (h : define name params body = .ok f) :
    f = ⟨name, params, body⟩ ∧ checkBody name params body = .ok () := by
  unfold define at h
  split at h
  · cases h
  · cases hbody : checkBody name params body with
    | error fault =>
      rw [hbody] at h
      cases h
    | ok u =>
      rw [hbody] at h
      cases h
      exact ⟨rfl, rfl⟩

namespace Lower

section
variable {name : String} {params : List String} {var var' : String → Lower Value}
  (call : String → List (Lower Value) → Lower Value)

mutual

/-- **A body that passes its check reads nothing but the parameters.** -/
theorem expr_congr_of_checkBody (hvar : ∀ x ∈ params, var x = var' x) :
    ∀ e : Source.Expr, checkBody name params e = .ok () →
    expr var call e = expr var' call e
  | .literal n, _ => by rw [expr, expr]
  | .ident x, h => by
      rw [checkBody] at h
      split at h
      · rw [expr, expr]
        exact hvar x ‹_›
      · cases h
  | .unary op e, h => by rw [expr, expr, expr_congr_of_checkBody hvar e h]
  | .binary l op r, h => by
      rw [checkBody] at h
      obtain ⟨_, hl, hr⟩ := Straightline.bind_eq_ok.mp h
      rw [expr, expr, expr_congr_of_checkBody hvar l hl, expr_congr_of_checkBody hvar r hr]
  | .call f args, h => by
      rw [checkBody] at h
      split at h
      · cases h
      · rw [expr, expr, exprs_congr_of_checkAll hvar args h, delayed_congr_of_checkAll hvar args h]
  | .fold op args, h => by rw [expr, expr, exprs_congr_of_checkAll hvar args h]
  | .array items, h => by rw [expr, expr, elements_congr_of_checkAll hvar items h]
  | .stray node, _ => by rw [expr, expr]

theorem exprs_congr_of_checkAll (hvar : ∀ x ∈ params, var x = var' x) :
    ∀ es : List Source.Expr, checkAll name params es = .ok () →
    exprs var call es = exprs var' call es
  | [], _ => by rw [exprs, exprs]
  | e :: es, h => by
      rw [checkAll] at h
      obtain ⟨_, he, hes⟩ := Straightline.bind_eq_ok.mp h
      rw [exprs, exprs, expr_congr_of_checkBody hvar e he, exprs_congr_of_checkAll hvar es hes]

theorem elements_congr_of_checkAll (hvar : ∀ x ∈ params, var x = var' x) :
    ∀ es : List Source.Expr, checkAll name params es = .ok () →
    elements var call es = elements var' call es
  | [], _ => by rw [elements, elements]
  | e :: es, h => by
      rw [checkAll] at h
      obtain ⟨_, he, hes⟩ := Straightline.bind_eq_ok.mp h
      rw [elements, elements, expr_congr_of_checkBody hvar e he, elements_congr_of_checkAll hvar es hes]

theorem delayed_congr_of_checkAll (hvar : ∀ x ∈ params, var x = var' x) :
    ∀ es : List Source.Expr, checkAll name params es = .ok () →
    delayed var call es = delayed var' call es
  | [], _ => by rw [delayed, delayed]
  | e :: es, h => by
      rw [checkAll] at h
      obtain ⟨_, he, hes⟩ := Straightline.bind_eq_ok.mp h
      rw [delayed, delayed, expr_congr_of_checkBody hvar e he, delayed_congr_of_checkAll hvar es hes]

end

end

end Lower

/-- **Every function of a scope has been accepted** under its name. -/
def Scope.Accepted (s : Scope) : Prop :=
  ∀ k f, s.functions.get? k = some f → Definition.define k f.params f.body = .ok f

theorem Scope.Accepted.name_eq {s : Scope} (h : s.Accepted) {k : String} {f : Definition}
    (hf : s.functions.get? k = some f) : f.name = k := by
  rw [(Definition.define_eq_ok (h k f hf)).1]

theorem Table.exists_get?_zip {α : Type} {names : List String} {as : List α} {x : String}
    (hlen : as.length = names.length) (hx : x ∈ names) : ∃ a, get? (names.zip as) x = some a := by
  induction names generalizing as with
  | nil => cases hx
  | cons n names ih =>
    cases as with
    | nil => cases hlen
    | cons a as =>
      rw [List.zip_cons_cons, get?_cons]
      split
      · exact ⟨a, rfl⟩
      · rename_i hne
        exact ih (Nat.succ.inj hlen) ((List.mem_cons.mp hx).resolve_left hne)

namespace Lower

variable {s s' : Scope}

theorem checkRecursion_congr (hfun : s'.functions = s.functions) (f : Definition) :
    checkRecursion s' f = checkRecursion s f := by
  have hgraph : s'.callGraph = s.callGraph := by rw [Scope.callGraph, hfun, Scope.callGraph]
  rw [checkRecursion, hgraph, checkRecursion]

/-- **A call reads nothing but its arguments**: only the functions of a scope make a difference to it. -/
theorem call_congr (hs : s.Accepted) (hfun : s'.functions = s.functions) (depth : Nat) :
    call s' depth = call s depth := by
  induction depth with
  | zero =>
    funext f args
    rfl
  | succ depth ih =>
    funext f args c
    cases hfn : s.functions.get? f with
    | none => rw [call_of_undefined hfn, call_of_undefined (hfun ▸ hfn)]
    | some fn =>
      have hfn' : s'.functions.get? f = some fn := hfun ▸ hfn
      have hcongr := checkRecursion_congr hfun fn
      cases hcheck : checkRecursion s fn c with
      | error fault d => rw [call_of_refused hfn hcheck, call_of_refused hfn' (hcongr ▸ hcheck)]
      | ok u d =>
        rw [call_of_checked hfn hcheck, call_of_checked hfn' (hcongr ▸ hcheck), ih]
        split
        · rename_i hlen
          refine congrFun (expr_congr_of_checkBody _ (fun x hx => ?_) fn.body
            (Definition.define_eq_ok (hs f fn hfn)).2) d
          obtain ⟨m, hm⟩ := Table.exists_get?_zip hlen hx
          rw [local?, local?, hm]
        · rfl

end Lower

/-! ## Memories -/

/-- **A function passes the check** that is made before it is inlined: it has passed before, or it is not
recursive. -/
def Definition.Passes (functions : Table Definition) (c : List String) (f : String) : Prop :=
  f ∈ c ∨ ¬ Recursive functions f

open Definition (Passes)

/-- Two memories with which the same functions pass the check as with `start`. -/
def Alike (functions : Table Definition) (start c c' : List String) : Prop :=
  (∀ f, Passes functions c f ↔ Passes functions start f) ∧
    ∀ f, Passes functions c' f ↔ Passes functions start f

section
variable {s : Scope} {start c : List String}

/-- A check passes or fails as it would have in the beginning, and keeps it so. -/
theorem checkRecursion_of_passes {f : Definition} (hf : s.functions.get? f.name = some f)
    (hc : ∀ g, Passes s.functions c g ↔ Passes s.functions start g) :
    (Passes s.functions start f.name ∧ ∃ d, Lower.checkRecursion s f c = .ok () d ∧ c ⊆ d ∧
        ∀ g, Passes s.functions d g ↔ Passes s.functions start g) ∨
      ¬ Passes s.functions start f.name ∧
        Lower.checkRecursion s f c = .error (.recursiveCall f.name) c := by
  obtain ⟨hmem, h⟩ | ⟨hmem, hr, h⟩ | ⟨hmem, hr, h⟩ := checkRecursion_cases hf c
  · exact Or.inl ⟨(hc _).mp (Or.inl hmem), c, h, List.Subset.refl c, hc⟩
  · exact Or.inr ⟨fun hpass => ((hc _).mpr hpass).elim hmem fun hnot => hnot hr, h⟩
  · refine Or.inl ⟨(hc _).mp (Or.inr hr), _, h, List.subset_cons_self _ c, fun g => ?_⟩
    rw [← hc g]
    constructor
    · rintro (hg | hg)
      · rcases List.mem_cons.mp hg with rfl | hg
        · exact Or.inr hr
        · exact Or.inl hg
      · exact Or.inr hg
    · exact Or.imp_left (List.mem_cons_of_mem _)

variable (hkeyed : ∀ k f, s.functions.get? k = some f → f.name = k)

include hkeyed

theorem coupled_checkRecursion (start : List String) (k : String) (f : Definition)
    (hf : s.functions.get? k = some f) :
    Lower.Coupled (Alike s.functions start) (fun _ => True) (fun _ => True)
      (Lower.checkRecursion s f) (Lower.checkRecursion s f) := by
  obtain rfl := hkeyed k f hf
  rintro c c' ⟨hc, hc'⟩
  rcases checkRecursion_of_passes hf hc with ⟨hpass, d, h, hgrown, hd⟩ | ⟨hnot, h⟩
  · rcases checkRecursion_of_passes hf hc' with ⟨_, d', h', hgrown', hd'⟩ | ⟨hnot, _⟩
    · rw [h, h']
      exact .ok trivial ⟨hd, hd'⟩ hgrown hgrown'
    · exact absurd hpass hnot
  · rcases checkRecursion_of_passes hf hc' with ⟨hpass, _⟩ | ⟨_, h'⟩
    · exact absurd hpass hnot
    · rw [h, h']
      exact .error trivial ⟨hc, hc'⟩ (List.Subset.refl c) (List.Subset.refl c')

/-- **An argument comes to the same value again**, whatever has been lowered in between. -/
theorem coupled_argument {e : Source.Expr} {v : Value}
    (h : Outcome.result (lower s e start) = .ok v) :
    Lower.Coupled (Alike s.functions start) (Value.Made fun _ => True) (fun _ => True)
      (lower s e) (pure v) := by
  have hcoupled := coupled_lower hereditary_true (fun _ _ _ _ _ => trivial)
    (coupled_checkRecursion hkeyed start) e
  rintro c c' ⟨hc, hc'⟩
  have hagree := hcoupled c start ⟨hc, fun _ => Iff.rfl⟩
  have hresult := hagree.result_eq.trans h
  generalize lower s e c = o at hagree hresult ⊢
  generalize lower s e start = o' at hagree
  cases hagree with
  | error => cases hresult
  | ok hmade halike hgrown _ =>
    cases hresult
    exact .ok hmade ⟨halike.1, hc'⟩ hgrown (List.Subset.refl c')

end

/-! ## The substitution lemma -/

section
variable {s s' : Scope} {f : Definition} {args : List Source.Expr} {vs : List Value}
  {c : List String}

/-- The value of a parameter; any other variable is that of the scope. -/
def Lower.boundTo (s : Scope) (values : Table Value) (x : String) : Lower Value :=
  match values.get? x with
  | some v => pure v
  | none => lower s (.ident x)

/-- Lowering a body where its parameters are bound to values takes these for the parameters. -/
theorem lower_body (hs : s.Accepted) (hfun : s'.functions = s.functions)
    (hbody : checkBody f.name f.params f.body = .ok ()) (hlen : vs.length = f.params.length)
    (hvars : ∀ x, s'.bindings.get? x = Table.get? (f.params.zip vs) x) :
    lower s' f.body = Lower.expr (Lower.boundTo s (f.params.zip vs))
      (Lower.call s (s.functions.length + 1)) f.body := by
  rw [lower, hfun, Lower.call_congr hs hfun]
  refine Lower.expr_congr_of_checkBody _ (fun x hx => ?_) f.body hbody
  obtain ⟨v, hv⟩ := Table.exists_get?_zip hlen hx
  rw [Scope.valueOf, hvars, hv, Lower.boundTo, hv]
  rfl

/-- Lowering a body with the arguments in the place of the parameters, and with their values, stays
together. -/
theorem coupled_body (hs : s.Accepted)
    (hargs : List.Forall₂ (fun a v => Outcome.result (lower s a c) = .ok v) args vs)
    (params : List String)
    (body : Source.Expr) :
    Lower.Coupled (Alike s.functions c) (Value.Made fun _ => True) (fun _ => True)
      (Lower.expr (fun x => lower s (substitute (params.zip args) (.ident x)))
        (Lower.call s (s.functions.length + 1)) body)
      (Lower.expr (Lower.boundTo s (params.zip vs)) (Lower.call s (s.functions.length + 1)) body) := by
  have hcheck := coupled_checkRecursion (fun _ _ hf => hs.name_eq hf) c
  have hbindings : ∀ x v, s.bindings.get? x = some v → v.Made fun _ => True :=
    fun _ _ _ _ _ => trivial
  refine Lower.coupled_expr (F := fun _ => True) ⟨hereditary_true, fun _ _ => trivial, fun x => ?_,
    fun g as as' _ => Lower.coupled_call hereditary_true hbindings hcheck _ g as as'⟩ body
    fun _ _ => trivial
  unfold substitute Lower.boundTo
  obtain ⟨h, h'⟩ | ⟨a, v, h, h', hv⟩ := Lower.get?_zip_cases hargs params x <;> rw [h, h']
  · exact coupled_lower hereditary_true hbindings hcheck (.ident x)
  · exact coupled_argument (fun _ _ hf => hs.name_eq hf) hv

end

namespace Session

/-- Only accepted functions are entered. -/
theorem accepted_after (p : Source.Program) : (after p).scope.Accepted := by
  refine after_induction (I := fun s => s.scope.Accepted) nofun (fun s stmt h => ?_) p
  obtain ⟨x, params, body, rfl, hnew, hfun, _⟩ | ⟨hfun, _⟩ := s.next_memory stmt
  · intro k f hf
    rw [hfun] at hf
    by_cases hk : k = x
    · subst hk
      rw [Table.get?_set_self] at hf
      cases hf
      -- a function that is not accepted is not entered
      cases hdefine : Definition.define k params body with
      | ok f => rw [(Definition.define_eq_ok hdefine).1]
      | error fault =>
        have hstep : s.step (.define k params body) = .error fault s := by
          rw [step, hdefine]
          rfl
        rw [next_of_error hstep] at hfun
        rw [hfun, Table.has, Table.get?_set_self] at hnew
        cases hnew
    · rw [Table.get?_set_of_ne _ _ hk] at hf
      exact h k f hf
  · intro k f hf
    exact h k f (hfun ▸ hf)

/-- **Calling is substituting.**  Take the functions and the memory of a session after any statements, and
any variables.  Let a function be accepted, and let each of its arguments come to a value.  Then the body
with the arguments in the place of the parameters comes to the same value, or to the same fault, as the
body does where the parameters are bound to these values and nothing else is bound.  And the body comes to
it with any memory with which the same functions pass the check.

With a fresh memory the two sides can differ.  After the statements of `unnoticed_recursion`, `f` is
recursive but in memory: a body that calls `f` comes to a value with the memory of the session, and is
refused with an empty one. -/
theorem lower_instantiate (p : Source.Program) {s s' : Scope}
    (hs : s.functions = (after p).scope.functions) (hs' : s'.functions = (after p).scope.functions)
    {name : String} {params : List String} {body : Source.Expr} {f : Definition}
    (hf : Definition.define name params body = .ok f) {args : List Source.Expr} {vs : List Value}
    (hlen : args.length = f.params.length)
    (hargs : List.Forall₂ (fun a v => Outcome.result (lower s a (after p).checked) = .ok v) args vs)
    (hvars : ∀ x, s'.bindings.get? x = Table.get? (f.params.zip vs) x) :
    ∃ e, f.instantiate args = .ok e ∧
      Outcome.result (lower s e (after p).checked) =
        Outcome.result (lower s' f.body (after p).checked) ∧
      ∀ c, (∀ g, Passes s.functions c g ↔ Passes s.functions (after p).checked g) →
        Outcome.result (lower s' f.body c) = Outcome.result (lower s' f.body (after p).checked) := by
  have haccepted : s.Accepted := fun k g hg => accepted_after p k g (hs ▸ hg)
  obtain ⟨rfl, hbody⟩ := Definition.define_eq_ok hf
  have hcoupled := coupled_body haccepted hargs params body
  rw [← lower_body haccepted (hs'.trans hs.symm) hbody (hargs.length_eq ▸ hlen) hvars] at hcoupled
  have hsame : ∀ g, Passes s.functions (after p).checked g ↔ Passes s.functions (after p).checked g :=
    fun _ => Iff.rfl
  have hagree := hcoupled _ _ ⟨hsame, hsame⟩
  -- neither lowering uses up its bound, so both follow the rules
  have hends : ∀ t : Scope, t.functions = (after p).scope.functions → ∀ e,
      Outcome.Ends (lower t e (after p).checked) := by
    intro t ht e
    exact ends_lower (fun k g hg => (guarded_after p).keyed k g (ht ▸ hg))
      (ht ▸ (guarded_after p).cycleFree) e
  have hleft := follows_expr
    ⟨fun x => follows_lower s (substitute (params.zip args) (.ident x)), follows_call _⟩ body _
    (hagree.ends (hends s' hs' body))
  have hlower := follows_lower s (substitute (params.zip args) body) _ (hends s hs _)
  refine ⟨_, if_pos hlen, ?_, fun c hc => ?_⟩
  · rw [hlower.unique hleft]
    exact hagree.result_eq
  · exact (hcoupled _ _ ⟨hsame, hc⟩).result_eq.symm.trans hagree.result_eq

/-- `import x; import y; define double(x) = x + x`. -/
def doubling : Source.Program :=
  [.importVar "x", .importVar "y", .define "double" ["x"] (.binary (.ident "x") .add (.ident "x"))]

/-- The function `f(x, y) = double(y) - x`. -/
def difference : Definition :=
  ⟨"f", ["x", "y"], .binary (.call "double" [.ident "y"]) .sub (.ident "x")⟩

/-- The parameters of `f`, bound to the values of `y` and of `double(x)`. -/
def swapped : Scope where
  functions := (after doubling).scope.functions
  bindings := [("x", .scalar (.ident "y")), ("y", .scalar (.binary (.ident "x") .add (.ident "x")))]

/-- The call `f(y, double(x))`: the variables in the arguments are named like the parameters, the other way
round. -/
theorem lower_instantiate_swapped :
    Definition.define difference.name difference.params difference.body = .ok difference ∧
    ∃ e, difference.instantiate [.ident "y", .call "double" [.ident "x"]] = .ok e ∧
      Outcome.result (lower (after doubling).scope e (after doubling).checked) =
        Outcome.result (lower swapped difference.body (after doubling).checked) := by
  have hdefine : Definition.define difference.name difference.params difference.body =
      .ok difference := by decide +kernel
  have hy : Outcome.result (lower (after doubling).scope (.ident "y") (after doubling).checked) =
      .ok (.scalar (.ident "y")) := by decide +kernel
  have hx : Outcome.result (lower (after doubling).scope (.call "double" [.ident "x"])
      (after doubling).checked) = .ok (.scalar (.binary (.ident "x") .add (.ident "x"))) := by
    decide +kernel
  have hswapped : swapped.functions = (after doubling).scope.functions := rfl
  obtain ⟨e, he, hresult, _⟩ := lower_instantiate doubling rfl hswapped hdefine rfl
    (.cons hy (.cons hx .nil)) fun _ => rfl
  exact ⟨hdefine, e, he, hresult⟩

end Session

end Straightline
