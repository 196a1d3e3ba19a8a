import Straightline.Compilation
import Straightline.Proofs.Accepting
import Straightline.Proofs.Dependencies
import Straightline.Proofs.Reading
import Straightline.Proofs.Settling
import Straightline.Proofs.Spelling

/-!
# Compiled text can be read

What `compile` prints is always a program of the target language, whatever the source and the settings.
Three things come together.  The names of a source text are names to the target language as well, and
those that are bound are no words of it; a number behind an underscore keeps a name a name, and makes it
longer than any word.  Folding writes no variable that was not there, and dropping what is dead drops
no exported variable.  And legible statements can be printed one behind the other without a separator.
-/

namespace Straightline

open Lexer

variable {x y : String}

/-! ## Names that can be printed -/

/-- A name that is no keyword spells no operator. -/
theorem isVariable_of_not_mem_keywords (hname : IsName x) (hx : x ∉ keywords) : IsVariable x := by
  refine ⟨hname, ?_, ?_⟩
  · cases hop : PrefixOp.ofToken? x with
    | none => rfl
    | some op =>
      obtain rfl := eq_token_of_prefixOp? hop
      cases op with
      | neg => exact absurd hname (by decide)
      | _ => exact absurd (by decide) hx
  · cases hop : InfixOp.ofToken? x with
    | none => rfl
    | some op =>
      obtain rfl := eq_token_of_infixOp? hop
      cases op with
      | and | or => exact absurd (by decide) hx
      | _ => exact absurd hname (by decide)

theorem continuesName_of_isDigit {c : Char} (h : c.isDigit = true) : continuesName c = true := by
  cases hc : continuesName c with
  | true => rfl
  | false =>
    have hdigit := isDigit_of_continuesName hc
    rw [Text.isDigit_of_isDigit h] at hdigit
    cases hdigit

theorem isName_elementName (hname : IsName x) (i : Nat) : IsName (elementName x i) := by
  obtain ⟨c, cs, hx, h⟩ := isName_iff.mp hname
  refine isName_iff.mpr ⟨c, cs ++ '_' :: Nat.toDigits 10 i, by rw [toList_elementName, hx]; rfl, ?_⟩
  refine { h with more := ?_ }
  rw [List.all_append, h.more, List.all_cons, Bool.true_and, Bool.and_eq_true, List.all_eq_true]
  exact ⟨by decide, fun d hd => continuesName_of_isDigit (Number.isDigit_of_mem_toDigits hd)⟩

/-- No operator is spelt with an underscore. -/
theorem isVariable_elementName (hname : IsName x) (i : Nat) : IsVariable (elementName x i) := by
  have hmem : '_' ∈ (elementName x i).toList := by
    rw [toList_elementName]
    simp
  refine ⟨isName_elementName hname i, ?_, ?_⟩
  · cases hop : PrefixOp.ofToken? (elementName x i) with
    | none => rfl
    | some op =>
      rw [eq_token_of_prefixOp? hop] at hmem
      cases op <;> exact absurd hmem (by decide)
  · cases hop : InfixOp.ofToken? (elementName x i) with
    | none => rfl
    | some op =>
      rw [eq_token_of_infixOp? hop] at hmem
      cases op <;> exact absurd hmem (by decide)

/-! ## The names of a source text -/

/-- The name that a statement brings into use as a variable. -/
def Source.Stmt.binds? : Source.Stmt → Option String
  | .importVar x | .letVar x _ => some x
  | _ => none

theorem Source.DerivesStmts.isName {p : Source.Program} {toks : List Token} (h : DerivesStmts p toks)
    (hscanned : ∀ t ∈ toks, Scanned t) : ∀ s ∈ p, s.binds? = some x → IsName x := by
  have hstmt : ∀ {s toks}, DerivesStmt s toks → (∀ t ∈ toks, Scanned t) → s.binds? = some x →
      IsName x := by
    intro s toks hs hscanned hx
    cases hs with
    | @importVar w y _ hy | @letVar w y _ _ _ _ hy =>
      cases hx
      exact (hscanned y (by simp)).isName hy
    | define | exportVar => cases hx
  induction h with
  | empty => simp
  | last hs => simpa using hstmt hs hscanned
  | more hs _ _ ih =>
    refine List.forall_mem_cons.mpr ⟨hstmt hs fun u hu => hscanned u (by simp [hu]), ?_⟩
    exact ih fun u hu => hscanned u (by simp [hu])

theorem Source.isName_of_parse {text : String} {p : Source.Program} (h : Source.parse text = .ok p) :
    ∀ s ∈ p, s.binds? = some x → IsName x := by
  obtain ⟨toks, htext, hread⟩ := parse_eq_ok.mp h
  obtain ⟨body, stop, rfl, hstop, hbody⟩ := genuine_of_tokenize htext
  exact (derives_of_statements hbody hstop hread).isName hbody

/-! ## The variables of a session -/

namespace Session

variable {p : Source.Program} {s s' : Session}

/-- **All variables of a session can be printed**, and the imported ones are those that `p` imports. -/
structure Spelt (p : Source.Program) (s : Session) : Prop where
  keywords : s.scope.keywords = Straightline.keywords
  cells : ∀ x ∈ s.cells, IsVariable x
  imports : ∀ x ∈ s.scope.imports, .importVar x ∈ p

theorem Spelt.initial : Spelt p {} where
  keywords := rfl
  cells _ h := nomatch h
  imports _ h := nomatch h

/-- Every accepted statement keeps the variables printable. -/
theorem Spelt.step {stmt : Source.Stmt} (h : s.Spelt p) (hmem : stmt ∈ p)
    (hname : ∀ x, stmt.binds? = some x → IsName x) (hstep : s.step stmt = .ok () s') : s'.Spelt p := by
  cases stmt with
  | importVar x =>
    obtain ⟨scope, hscope, rfl⟩ := step_importVar hstep
    obtain ⟨⟨_, _, hx, _⟩, rfl⟩ := Scope.importVar_eq_ok hscope
    refine ⟨h.keywords, ?_, List.forall_mem_cons.mpr ⟨hmem, h.imports⟩⟩
    exact List.forall_mem_cons.mpr
      ⟨isVariable_of_not_mem_keywords (hname x rfl) (h.keywords ▸ hx), h.cells⟩
  | define f params body =>
    obtain ⟨scope, hscope, rfl⟩ := step_define hstep
    obtain ⟨_, rfl⟩ := Scope.define_eq_ok hscope
    exact ⟨h.keywords, h.cells, h.imports⟩
  | letVar x e =>
    obtain ⟨v, c, scope, stmts, _, hscope, rfl⟩ := step_letVar hstep
    obtain ⟨⟨_, _, hx, _⟩, rfl, rfl⟩ := Scope.letVar_eq_ok hscope
    refine ⟨h.keywords, ?_, h.imports⟩
    -- the new cells are the variable itself, or the elements of the array it is bound to
    intro y hy
    rw [Session.cells, Target.targets_append, Target.targets_map_assign, ← List.append_assoc] at hy
    rcases List.mem_append.mp hy with hy | hy
    · exact h.cells y hy
    · obtain rfl | ⟨i, rfl⟩ := Value.eq_or_elementName_of_mem_parts hy
      · exact isVariable_of_not_mem_keywords (hname y rfl) (h.keywords ▸ hx)
      · exact isVariable_elementName (hname x rfl) i
  | exportVar x =>
    obtain ⟨scope, hscope, rfl⟩ := step_exportVar hstep
    obtain ⟨v, xs, _, rfl⟩ := Scope.exportVar_eq_ok hscope
    exact ⟨h.keywords, h.cells, h.imports⟩
  | stray node => cases hstep

/-- **An accepted program** leaves a session with names in order, all of which can be printed. -/
theorem spelt_of_run (hnames : ∀ stmt ∈ p, ∀ x, stmt.binds? = some x → IsName x)
    (hrun : Session.run {} p = .ok () s') : s'.WellNamed ∧ s'.Spelt p := by
  constructor
  · refine run_induction (I := WellNamed) ?_ hrun .initial
    intro stmt _ s s' h hstep
    exact next_of_ok hstep ▸ h.next stmt
  · refine run_induction (I := Spelt p) ?_ hrun .initial
    exact fun stmt hmem s s' h hstep => h.step hmem (hnames stmt hmem) hstep

end Session

/-! ## Legible programs -/

namespace Target

variable {known : List String} {stmts folded kept : List Stmt}

theorem Expr.ReadsOnly.legible {e : Expr} (h : e.ReadsOnly known) (hknown : ∀ x ∈ known, IsVariable x) :
    e.Legible := by
  obtain ⟨xs, hreads, hsub⟩ := h
  induction e generalizing xs with
  | literal n => trivial
  | ident x =>
    cases hreads
    exact hknown x (hsub List.mem_cons_self)
  | unary op e ih => exact ih xs hreads hsub
  | binary l op r ihl ihr =>
    rw [reads] at hreads
    obtain ⟨ls, hl, hreads⟩ := bind_eq_ok.mp hreads
    obtain ⟨rs, hr, heq⟩ := bind_eq_ok.mp hreads
    cases heq
    exact ⟨ihl ls hl (List.append_subset.mp hsub).1, ihr rs hr (List.append_subset.mp hsub).2⟩
  | stray node => cases hreads

theorem Grounded.legible (h : Grounded known stmts) (hknown : ∀ x ∈ known, IsVariable x)
    (htargets : ∀ x ∈ targets stmts, IsVariable x) : ∀ s ∈ stmts, s.Legible := by
  induction stmts generalizing known with
  | nil => nofun
  | cons stmt stmts ih =>
    cases stmt with
    | assign x e =>
      obtain ⟨hx, hrest⟩ := List.forall_mem_cons.mp htargets
      have hstmts := ih h.2 (List.forall_mem_cons.mpr ⟨hx, hknown⟩) hrest
      exact List.forall_mem_cons.mpr ⟨⟨hx, h.1.legible hknown⟩, hstmts⟩
    | stray node => exact h.elim

/-- Legible statements are assignments. -/
theorem map_target?_of_legible (h : ∀ s ∈ stmts, s.Legible) :
    stmts.map Stmt.target? = (targets stmts).map some := by
  induction stmts with
  | nil => rfl
  | cons stmt stmts ih =>
    obtain ⟨hstmt, hstmts⟩ := List.forall_mem_cons.mp h
    cases stmt with
    | assign x e => rw [List.map_cons, ih hstmts]; rfl
    | stray node => exact hstmt.elim

theorem target?_norm (s : Stmt) : s.norm.target? = s.target? := by
  cases s <;> rfl

/-! ## Folding -/

section

variable [Elementary] {bindings : Table Expr}

theorem Expr.Legible.reduce {e d : Expr} (he : e.Legible) (h : e.reduce bindings = .ok d) :
    d.Legible := by
  induction e generalizing d with
  | literal n =>
    cases h
    trivial
  | ident x =>
    cases h
    unfold resolve
    split
    · trivial
    · exact he
  | unary op e ih =>
    rw [Expr.reduce] at h
    obtain ⟨inner, hinner, h⟩ := bind_eq_ok.mp h
    have he := ih he hinner
    rcases foldUnary_cases h with ⟨n, rfl⟩ | ⟨rfl, _⟩
    · trivial
    · exact he
  | binary l op r ihl ihr =>
    rw [Expr.reduce] at h
    obtain ⟨lhs, hlhs, h⟩ := bind_eq_ok.mp h
    obtain ⟨rhs, hrhs, h⟩ := bind_eq_ok.mp h
    have hl := ihl he.1 hlhs
    have hr := ihr he.2 hrhs
    rcases foldBinary_cases h with rfl | rfl | ⟨n, rfl⟩ | ⟨rfl, _⟩
    · exact hl
    · exact hr
    · trivial
    · exact ⟨hl, hr⟩
  | stray node => exact he.elim

/-- A sweep keeps the targets, and keeps a program legible. -/
theorem legible_foldFrom (hlegible : ∀ s ∈ stmts, s.Legible)
    (h : foldFrom bindings stmts = .ok folded) :
    (∀ s ∈ folded, s.Legible) ∧ targets folded = targets stmts := by
  induction stmts generalizing bindings folded with
  | nil =>
    cases h
    exact ⟨hlegible, rfl⟩
  | cons stmt stmts ih =>
    obtain ⟨hstmt, hstmts⟩ := List.forall_mem_cons.mp hlegible
    cases stmt with
    | stray node => cases h
    | assign x e =>
      obtain ⟨d, rest, hd, hrest, rfl⟩ := foldFrom_assign h
      obtain ⟨hfolded, htargets⟩ := ih hstmts hrest
      refine ⟨List.forall_mem_cons.mpr ⟨⟨hstmt.1, hstmt.2.reduce hd⟩, hfolded⟩, ?_⟩
      exact congrArg (x :: ·) htargets

end

/-! ## Dropping dead assignments -/

theorem mem_targets {x : String} : x ∈ targets stmts ↔ ∃ e, .assign x e ∈ stmts := by
  rw [targets, List.mem_filterMap]
  constructor
  · rintro ⟨s, hs, hx⟩
    cases s with
    | assign y e =>
      cases hx
      exact ⟨e, hs⟩
    | stray node => cases hx
  · rintro ⟨e, he⟩
    exact ⟨_, he, rfl⟩

/-- **What optimization keeps**: it prints no more than the program did, in the order it did, and every
exported variable that the program assigns. -/
theorem legible_optimize [Elementary] {limit : Option Int} {roots : List String}
    (hlegible : ∀ s ∈ stmts, s.Legible) (h : optimize limit roots stmts = .ok kept) :
    (∀ s ∈ kept, s.Legible) ∧ (targets kept).Sublist (targets stmts) ∧
      ∀ x ∈ roots, x ∈ targets stmts → x ∈ targets kept := by
  rw [optimize] at h
  obtain ⟨folded, hfixpoint, hdrop⟩ := bind_eq_ok.mp h
  obtain ⟨hfolded, htargets⟩ := legible_foldFrom hlegible (fold_of_foldToFixpoint hfixpoint)
  obtain ⟨g, _, rfl⟩ := dropDead_eq_ok_iff.mp (mapError_eq_ok.mp hdrop)
  rw [← htargets]
  refine ⟨fun s hs => hfolded s (List.mem_of_mem_filter hs), List.filter_sublist.filterMap _, ?_⟩
  intro x hx hmem
  obtain ⟨e, he⟩ := mem_targets.mp hmem
  exact mem_targets.mpr ⟨e, List.mem_filter.mpr ⟨he, decide_eq_true (roots_subset_search hx)⟩⟩

end Target

/-! ## Compilation -/

section

variable [Elementary] {settings : Settings}

/-- What is printed of a lowered program, optimized or not. -/
theorem legible_finish {out : Output} {stmts : List Target.Stmt} (hlegible : ∀ s ∈ out.stmts, s.Legible)
    (h : settings.finish out = .ok stmts) :
    (∀ s ∈ stmts, s.Legible) ∧ (Target.targets stmts).Sublist (Target.targets out.stmts) ∧
      ∀ x ∈ out.roots, x ∈ Target.targets out.stmts → x ∈ Target.targets stmts := by
  unfold Settings.finish at h
  split at h
  · exact Target.legible_optimize hlegible h
  · cases h
    exact ⟨hlegible, List.Sublist.refl _, fun _ _ h => h⟩

omit [Elementary] in
theorem run_of_lowerProgram {p : Source.Program} {out : Output} (h : lowerProgram p = .ok out) :
    ∃ s, Session.run {} p = .ok () s ∧ out = s.output := by
  unfold lowerProgram at h
  split at h
  · cases h
    exact ⟨_, ‹_›, rfl⟩
  · cases h

/-- **Compiled text is readable target code.**  Reading the text of a compiled program gives as many
assignments as were printed, with the same targets in the same order.  The targets differ by more than
case, and every exported variable is one of them or is imported by the source. -/
theorem parse_compiled {text : String} {r : Compiled} (h : compile settings text = .ok r) :
    Source.parse text = .ok r.source ∧
      Target.print settings.lineLimit.value r.output = .ok r.code ∧
      (∃ stmts, Target.parse r.code = .ok stmts ∧ stmts.length = r.output.length ∧
        stmts.map Target.Stmt.target? = (Target.targets r.output).map some) ∧
      ((Target.targets r.output).Pairwise fun y z => Text.lower y ≠ Text.lower z) ∧
      ∀ x ∈ r.roots, x ∈ Target.targets r.output ∨ .importVar x ∈ r.source := by
  obtain ⟨p, hparse, h⟩ := bind_eq_ok.mp h
  obtain ⟨out, hlower, h⟩ := bind_eq_ok.mp h
  obtain ⟨stmts, hfinish, h⟩ := bind_eq_ok.mp h
  obtain ⟨code, hprint, h⟩ := bind_eq_ok.mp h
  cases h
  rw [mapError_eq_ok] at hparse hlower hfinish hprint
  obtain ⟨s, hrun, rfl⟩ := run_of_lowerProgram hlower
  obtain ⟨hnamed, hspelt⟩ := Session.spelt_of_run
    (fun stmt hmem x => Source.isName_of_parse hparse stmt hmem) hrun
  have hlegible : ∀ stmt ∈ s.emitted, stmt.Legible :=
    hnamed.grounded.legible (fun x hx => hspelt.cells x (List.mem_append_left _ hx))
      fun x hx => hspelt.cells x (List.mem_append_right _ hx)
  -- the optimizer only folds and drops, so its output is legible too and its targets are still apart
  obtain ⟨hstmts, hsub, hkeeps⟩ := legible_finish hlegible hfinish
  obtain ⟨text', toks, q, hprint', htoks, htokens⟩ :=
    Target.tokenize_print settings.lineLimit.value hstmts
  obtain rfl : text' = code := Except.ok.inj (hprint'.symm.trans hprint)
  refine ⟨hparse, hprint, ⟨_, Target.parse_of_written htoks htokens, List.length_map _, ?_⟩, ?_, ?_⟩
  · rw [List.map_map, ← Target.map_target?_of_legible hstmts]
    exact List.map_congr_left fun stmt _ => Target.target?_norm stmt
  · exact (List.pairwise_append.mp hnamed.apart).2.1.sublist hsub
  · intro x hx
    have hroot : x ∈ s.scope.roots := List.mem_mergeSort.mp hx
    rcases List.mem_append.mp (hnamed.roots hroot) with himport | htarget
    · exact Or.inr (hspelt.imports x himport)
    · exact Or.inl (hkeeps x hroot htarget)

end

/-- A source with a name beyond ASCII, an array of which only one element is of use, and an import that
is exported. -/
def mixedText : String := "import A; let ß = [A, 2 + 3]; let y = sum(ß); export y; export A"

def mixedSource : Source.Program :=
  [.importVar "A",
    .letVar "ß" (.array [.ident "A", .binary (.literal (.ofInt 2)) .add (.literal (.ofInt 3))]),
    .letVar "y" (.fold .add [.ident "ß"]),
    .exportVar "y",
    .exportVar "A"]

def mixedLowered : Output where
  stmts := [.assign "ß_0" (.ident "A"),
    .assign "ß_1" (.binary (.literal (.ofInt 2)) .add (.literal (.ofInt 3))),
    .assign "y" (.binary (.binary (.literal .zero) .add (.ident "ß_0")) .add (.ident "ß_1"))]
  roots := ["A", "y"]

def mixedOutput : List Target.Stmt :=
  [.assign "ß_0" (.ident "A"), .assign "y" (.binary (.ident "ß_0") .add (.literal (.ofInt 5)))]

/-- It is compiled to `ß_0=A` and `y=ß_0+5` on two lines. -/
theorem parse_compiled_mixed :
    ∃ r stmts, compile { lineLimit := ⟨5, by decide⟩ } mixedText = .ok r ∧
      r.code = "ß_0=A\ny=ß_0+5" ∧ Target.parse r.code = .ok stmts ∧ stmts.length = 2 ∧
      stmts.map Target.Stmt.target? = [some "ß_0", some "y"] ∧ "A" ∈ r.roots ∧
      ("A" ∈ Target.targets r.output ∨ .importVar "A" ∈ r.source) := by
  have hparse : Source.parse mixedText = .ok mixedSource := eq_ok_of_toOption (by decide +kernel)
  have hlower : lowerProgram mixedSource = .ok mixedLowered := eq_ok_of_toOption (by decide +kernel)
  have hfold : Target.fold mixedLowered.stmts = .ok [.assign "ß_0" (.ident "A"),
      .assign "ß_1" (.literal (.ofInt 5)),
      .assign "y" (.binary (.ident "ß_0") .add (.literal (.ofInt 5)))] := rfl
  have hdrop : Target.dropDead mixedLowered.roots [.assign "ß_0" (.ident "A"),
      .assign "ß_1" (.literal (.ofInt 5)),
      .assign "y" (.binary (.ident "ß_0") .add (.literal (.ofInt 5)))] = .ok mixedOutput :=
    eq_ok_of_toOption (by decide +kernel)
  have hoptimize : Target.optimize none mixedLowered.roots mixedLowered.stmts = .ok mixedOutput :=
    bind_eq_ok.mpr ⟨_, Target.foldToFixpoint_none hfold, mapError_eq_ok.mpr hdrop⟩
  have hprint : Target.print 5 mixedOutput = .ok "ß_0=A\ny=ß_0+5" :=
    eq_ok_of_toOption (by decide +kernel)
  have hcompile : compile { lineLimit := ⟨5, by decide⟩ } mixedText = .ok _ :=
    bind_eq_ok.mpr ⟨_, mapError_eq_ok.mpr hparse, bind_eq_ok.mpr ⟨_, mapError_eq_ok.mpr hlower,
      bind_eq_ok.mpr ⟨_, mapError_eq_ok.mpr hoptimize,
        bind_eq_ok.mpr ⟨_, mapError_eq_ok.mpr hprint, rfl⟩⟩⟩⟩
  obtain ⟨_, _, ⟨stmts, hread, hlength, htargets⟩, _, hroots⟩ := parse_compiled hcompile
  have hroot : "A" ∈ mixedLowered.roots.mergeSort fun a b => decide (a ≤ b) :=
    List.mem_mergeSort.mpr List.mem_cons_self
  exact ⟨_, stmts, hcompile, rfl, hread, hlength, htargets, hroot, hroots "A" hroot⟩

end Straightline
