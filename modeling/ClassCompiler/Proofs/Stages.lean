import ClassCompiler.Proofs.Cancellation
import ClassCompiler.Proofs.TreeInduction

/-!
# What each stage reports

Every problem belongs to one stage of an analysis. A stage reports only problems of its own, so the
reports of a stage can be read off a whole run.

Results:
1. `Typing.atStage_faults`, `Typing.atStage_checkStmts`: whatever is found in a body belongs to it.
2. `Typing.filter_override_checkFeature`: of what is found in a member only the comparison with the
   inherited method does not belong to its body.
3. `Analysis.definition_reports`, `Analysis.override_reports`: the reports on definitions are those
   of registration, and the reports on overriding those of the check.
-/

namespace ClassCompiler

open Typing

/-! ## Stages -/

/-- The part of an analysis that finds a problem. -/
inductive Stage where
  | definition
  | parent
  | cycle
  | member
  | override
  | body
deriving DecidableEq

/-- Where names of a kind are introduced. -/
def NameKind.stage : NameKind → Stage
  | .cls => .definition
  | .field | .method => .member
  | .param | .localVar => .body

def Problem.stage : Problem → Stage
  | .builtinRedefined _ | .duplicateClass _ _ => .definition
  | .missingParent _ _ | .finalParent _ _ => .parent
  | .inheritanceCycle _ _ => .cycle
  | .reservedName kind _ | .duplicateName kind _ _ => kind.stage
  | .invalidOverride _ _ _ => .override
  | _ => .body

/-- The stage that a diagnostic comes from; a fault of the entry point comes from none of them. -/
def Diagnostic.stage? (d : Diagnostic) : Option Stage :=
  match d.cause with
  | some (.fault f) => some f.problem.stage
  | _ => none

/-- The diagnostics of one stage. -/
def reportsAt (s : Stage) (ds : List Diagnostic) : List Diagnostic :=
  ds.filter fun d => d.stage? = some s

section

variable {s : Stage} {ds : List Diagnostic}

theorem reportsAt_append (ds es : List Diagnostic) :
    reportsAt s (ds ++ es) = reportsAt s ds ++ reportsAt s es :=
  List.filter_append ds es

theorem reportsAt_of_all (h : ∀ d ∈ ds, d.stage? = some s) : reportsAt s ds = ds :=
  List.filter_eq_self.mpr fun d hd => decide_eq_true (h d hd)

theorem reportsAt_of_none (h : ∀ d ∈ ds, d.stage? ≠ some s) : reportsAt s ds = [] :=
  List.filter_eq_nil_iff.mpr fun d hd => by simpa using h d hd

/-- A list from one stage has no reports of another one. -/
theorem reportsAt_of_ne {s' : Stage} (h : ∀ d ∈ ds, d.stage? = some s') (hne : s' ≠ s) :
    reportsAt s ds = [] :=
  reportsAt_of_none fun d hd heq => hne (Option.some.inj ((h d hd).symm.trans heq))

end

/-- All faults belong to the stage. -/
def AtStage (s : Stage) (fs : List Fault) : Prop := ∀ f ∈ fs, f.problem.stage = s

section

variable {s : Stage}

theorem atStage_nil : AtStage s [] := fun _ hf => absurd hf List.not_mem_nil

theorem atStage_append {fs gs : List Fault} :
    AtStage s (fs ++ gs) ↔ AtStage s fs ∧ AtStage s gs := by
  unfold AtStage
  simp only [List.mem_append, or_imp, forall_and]

theorem atStage_cons {f : Fault} {fs : List Fault} (h : f.problem.stage = s) (hfs : AtStage s fs) :
    AtStage s (f :: fs) := by
  intro g hg
  rcases List.mem_cons.mp hg with rfl | hg
  · exact h
  · exact hfs g hg

theorem atStage_singleton {f : Fault} (h : f.problem.stage = s) : AtStage s [f] :=
  atStage_cons h atStage_nil

/-- A test that gives at most one fault. -/
theorem atStage_ite {c : Prop} [Decidable c] {f : Fault} (h : f.problem.stage = s) :
    AtStage s (if c then [] else [f]) := by
  split
  · exact atStage_nil
  · exact atStage_singleton h

theorem AtStage.filter_override {fs : List Fault} (h : AtStage .body fs) :
    fs.filter (·.problem.stage = .override) = [] :=
  List.filter_eq_nil_iff.mpr fun f hf => by simp [h f hf]

end

/-! ## Names and types -/

namespace Typing

/-- If a look-up fails, its problem is one of the body it stands in. -/
def FailsInBody {α : Type} (r : Except Problem α) : Prop := ∀ p, r = .error p → p.stage = .body

theorem FailsInBody.ok {α : Type} (a : α) : FailsInBody (.ok a) := fun _ h => nomatch h

theorem FailsInBody.error {α : Type} {p : Problem} (h : p.stage = .body) :
    FailsInBody (.error p : Except Problem α) := by
  rintro p' ⟨⟩
  exact h

theorem FailsInBody.faultsOf {α : Type} {r : Except Problem α} (h : FailsInBody r) (span : Span) :
    AtStage .body (faultsOf span r) := by
  cases r with
  | ok a => exact atStage_nil
  | error p => exact atStage_singleton (h p rfl)

section

variable (t : ClassTable)

theorem failsInBody_memberTy (object : Ty) (name : String) :
    FailsInBody (memberTy t object name) := by
  unfold memberTy
  split
  · exact .ok _
  · split
    · exact .ok _
    · exact .error rfl
  · split
    · exact .ok _
    · exact .error rfl
  · exact .error rfl

theorem failsInBody_elemTy (name : String) (ty : Ty) : FailsInBody (elemTy name ty) := by
  unfold elemTy
  split
  · exact .ok _
  · exact .ok _
  · exact .error rfl

theorem failsInBody_newTy (typeName : String) : FailsInBody (newTy t typeName) := by
  unfold newTy
  split
  · exact .ok _
  · exact .error rfl

theorem failsInBody_newArrayTy (elemName : String) : FailsInBody (newArrayTy t elemName) := by
  unfold newArrayTy
  split
  · exact .error rfl
  · exact .error rfl
  · exact .error rfl
  · exact .ok _

theorem failsInBody_namedTy (typeName : String) : FailsInBody (namedTy t typeName) := by
  unfold namedTy
  split
  · exact .ok _
  · exact .error rfl

theorem failsInBody_declaredTy (kind : NameKind) (name typeName : String) :
    FailsInBody (declaredTy t kind name typeName) := by
  unfold declaredTy
  split
  · exact .error rfl
  · split
    · exact .error rfl
    · exact .ok _

end

namespace Env

variable (env : Env)

theorem failsInBody_nameTy (name : String) : FailsInBody (env.nameTy name) := by
  unfold nameTy
  split
  · exact .ok _
  · split
    · exact .ok _
    · split
      · exact .ok _
      · exact .error rfl

theorem failsInBody_targetTy (qualifier : Option Qualifier) (name : String) :
    FailsInBody (env.targetTy qualifier name) := by
  unfold targetTy
  split
  · split
    · exact .error rfl
    · exact env.failsInBody_nameTy name
  · exact failsInBody_memberTy _ _ _
  · split
    · exact failsInBody_memberTy _ _ _
    · exact .ok _

theorem failsInBody_refTy (object : Option Ty) (name : String) :
    FailsInBody (env.refTy object name) := by
  cases object with
  | some ty => exact failsInBody_memberTy env.table ty name
  | none => exact env.failsInBody_nameTy name

end Env

/-! ## Expressions -/

section

variable (t : ClassTable) (span : Span)

theorem atStage_argFaults (method : String) (index : Nat) (args : List (Ty × Span))
    (params : List ParamType) : AtStage .body (argFaults t method index args params) := by
  induction args generalizing index params with
  | nil => exact atStage_nil
  | cons arg args ih =>
    cases params with
    | nil => exact atStage_nil
    | cons p params =>
      simp only [argFaults]
      split
      · exact ih _ params
      · exact atStage_cons rfl (ih _ params)

theorem atStage_callFaults (receiver : Ty) (method : String) (args : List (Ty × Span)) :
    AtStage .body (callFaults t span method args (callee t receiver method)) := by
  unfold callee
  split
  · exact atStage_nil
  · split
    · exact atStage_singleton rfl
    · split
      · exact atStage_singleton rfl
      · exact atStage_append.mpr ⟨atStage_ite rfl, atStage_argFaults t method 0 args _⟩

theorem atStage_instanceOfFaults (operand : Ty) (typeName : String) :
    AtStage .body (instanceOfFaults t span operand (namedTy t typeName)) := by
  cases htested : namedTy t typeName with
  | error p => exact atStage_singleton (failsInBody_namedTy t typeName p htested)
  | ok tested => exact atStage_ite rfl

theorem atStage_castFaults (source : Ty) (typeName : String) :
    AtStage .body (castFaults t span source (namedTy t typeName)) := by
  cases htarget : namedTy t typeName with
  | error p => exact atStage_singleton (failsInBody_namedTy t typeName p htarget)
  | ok target => exact atStage_ite rfl

end

section

variable (env : Env)

theorem atStage_valueFaults (e : Expr) (expected : Ty) :
    AtStage .body (valueFaults env e expected) := atStage_ite rfl

theorem atStage_faults? {o : Option Expr} (h : ∀ e, o = some e → AtStage .body (faults env e)) :
    AtStage .body (faults? env o) := by
  cases o with
  | none => exact atStage_nil
  | some e => exact h e rfl

theorem atStage_faultsAll {es : List Expr} (h : ∀ e ∈ es, AtStage .body (faults env e)) :
    AtStage .body (faultsAll env es) := by
  induction es with
  | nil => exact atStage_nil
  | cons e es ih =>
    have hrest := ih fun e he => h e (List.mem_cons_of_mem _ he)
    exact atStage_append.mpr ⟨h e List.mem_cons_self, hrest⟩

/-- What is wrong with an expression is a matter of the body it stands in. -/
theorem atStage_faults (e : Expr) : AtStage .body (faults env e) := by
  induction e using Expr.induction with
  | dispatch receiver method args mark ihr iha =>
    simp only [faults, atStage_append]
    exact ⟨⟨atStage_faults? env ihr, atStage_faultsAll env iha⟩, atStage_callFaults _ _ _ _ _⟩
  | new typeName mark => exact (failsInBody_newTy _ _).faultsOf _
  | newArray elemName size mark ih =>
    simp only [faults, atStage_append]
    exact ⟨⟨ih, atStage_valueFaults env _ _⟩, (failsInBody_newArrayTy _ _).faultsOf _⟩
  | instanceOf operand typeName mark ih =>
    exact atStage_append.mpr ⟨ih, atStage_instanceOfFaults _ _ _ _⟩
  | cast typeName operand mark ih => exact atStage_append.mpr ⟨ih, atStage_castFaults _ _ _ _⟩
  | assign qualifier name value mark ih =>
    simp only [faults, atStage_append]
    exact ⟨⟨ih, (env.failsInBody_targetTy _ _).faultsOf _⟩, atStage_valueFaults env _ _⟩
  | arrayAssign qualifier name index value mark ihi ihv =>
    simp only [faults, atStage_append]
    exact ⟨⟨⟨⟨⟨ihi, ihv⟩, atStage_valueFaults env _ _⟩, (env.failsInBody_targetTy _ _).faultsOf _⟩,
      (failsInBody_elemTy _ _).faultsOf _⟩, atStage_valueFaults env _ _⟩
  | binary op lhs rhs mark ihl ihr =>
    simp only [faults, atStage_append]
    exact ⟨⟨ihl, ihr⟩, atStage_ite rfl⟩
  | unary op after operand mark ih => exact atStage_append.mpr ⟨ih, atStage_ite rfl⟩
  | var object name mark ih =>
    exact atStage_append.mpr ⟨atStage_faults? env ih, (env.failsInBody_refTy _ _).faultsOf _⟩
  | arrayElem object name index mark iho ihi =>
    simp only [faults, atStage_append]
    exact ⟨⟨⟨⟨atStage_faults? env iho, ihi⟩, atStage_valueFaults env _ _⟩,
      (env.failsInBody_refTy _ _).faultsOf _⟩, (failsInBody_elemTy _ _).faultsOf _⟩
  | intLit | boolLit | stringLit => exact atStage_nil

theorem atStage_part (o : Option Expr) : AtStage .body (faults? env o) :=
  atStage_faults? env fun e _ => atStage_faults env e

theorem atStage_initFaults (ty : Ty) (o : Option Expr) : AtStage .body (initFaults env ty o) := by
  cases o with
  | none => exact atStage_nil
  | some e => exact atStage_append.mpr ⟨atStage_faults env e, atStage_valueFaults env e ty⟩

theorem atStage_condFaults (e : Expr) : AtStage .body (condFaults env e) :=
  atStage_append.mpr ⟨atStage_faults env e, atStage_valueFaults env e .boolean⟩

theorem atStage_condFaults? (o : Option Expr) : AtStage .body (condFaults? env o) := by
  cases o with
  | none => exact atStage_nil
  | some e => exact atStage_condFaults env e

theorem atStage_returnFaults (span : Span) (ty : Ty) (o : Option Expr) :
    AtStage .body (returnFaults env span ty o) := by
  cases o with
  | none => exact atStage_ite rfl
  | some e =>
    simp only [returnFaults]
    split
    · exact atStage_nil
    · split
      · exact atStage_singleton rfl
      · exact atStage_valueFaults env e ty

end

/-! ## Statements and members -/

theorem atStage_bindLocal (file : Option String) {kind : NameKind} (h : kind.stage = .body)
    (name : String) (l : Local) (locals : Scope Local) :
    AtStage .body (bindLocal file kind name l locals).2 := by
  unfold bindLocal
  split
  · exact atStage_singleton h
  · split
    · exact atStage_nil
    · exact atStage_singleton h

section

variable (b : Body)

theorem atStage_checkStmts {ss : List Stmt}
    (ih : ∀ s ∈ ss, ∀ loops locals, AtStage .body (checkStmt b loops locals s).faults) (loops : Nat)
    (locals : Scope Local) : AtStage .body (checkStmts b loops locals ss).faults := by
  induction ss generalizing locals with
  | nil => exact atStage_nil
  | cons s ss ihss =>
    refine atStage_append.mpr ⟨ih s List.mem_cons_self loops locals, ?_⟩
    exact ihss (fun s hs => ih s (List.mem_cons_of_mem _ hs)) _

theorem atStage_checkStmt (s : Stmt) :
    ∀ loops locals, AtStage .body (checkStmt b loops locals s).faults := by
  induction s using Stmt.induction with
  | decl name typeName init span =>
    intro loops locals
    simp only [checkStmt, atStage_append]
    exact ⟨⟨(failsInBody_declaredTy _ _ _ _).faultsOf _, atStage_initFaults _ _ _⟩,
      atStage_bindLocal _ rfl _ _ _⟩
  | expr e span => exact fun loops locals => atStage_faults _ e
  | ifElse cond t e span iht ihe =>
    intro loops locals
    have hbranch (locals : Scope Local) : AtStage .body (checkBranch b loops locals e).faults := by
      cases e with
      | none => exact atStage_nil
      | some s => exact ihe s rfl loops _
    simp only [checkStmt, atStage_append]
    exact ⟨⟨atStage_condFaults _ cond, iht loops _⟩, hbranch _⟩
  | whileLoop cond body span ih =>
    exact fun loops locals => atStage_append.mpr ⟨atStage_condFaults _ cond, ih _ _⟩
  | forLoop init cond update body span ih =>
    intro loops locals
    simp only [checkStmt, atStage_append]
    exact ⟨⟨⟨atStage_part _ init, atStage_condFaults? _ cond⟩, atStage_part _ update⟩, ih _ _⟩
  | breakLoop span =>
    intro loops locals
    simp only [checkStmt]
    split
    · exact atStage_singleton rfl
    · exact atStage_nil
  | block stmts span ih => exact fun loops locals => atStage_checkStmts b ih loops _
  | ret value span =>
    exact fun loops locals =>
      atStage_append.mpr ⟨atStage_part _ value, atStage_returnFaults _ _ _ value⟩

end

section

variable (h : Home)

theorem atStage_bindParams (locals : Scope Local) (ps : List Param) :
    AtStage .body (bindParams h locals ps).2 := by
  induction ps generalizing locals with
  | nil => exact atStage_nil
  | cons p ps ih =>
    simp only [bindParams, atStage_append]
    exact ⟨⟨(failsInBody_declaredTy _ _ _ _).faultsOf _, atStage_bindLocal _ rfl _ _ _⟩, ih _⟩

theorem atStage_overrideFaults (m : Method) : AtStage .override (overrideFaults h m) := by
  unfold overrideFaults
  split
  · exact atStage_nil
  · split
    · exact atStage_ite rfl
    · exact atStage_nil

/-- The comparison of a member with what it overrides. Fields do not override. -/
def overridingFaults : Feature → List Fault
  | .field _ => []
  | .method m => overrideFaults h m

/-- Apart from overriding, what is found in a member is a matter of its body. -/
theorem filter_override_checkFeature (f : Feature) :
    (checkFeature h f).2.filter (·.problem.stage = .override) = overridingFaults h f := by
  cases f with
  | field f =>
    refine AtStage.filter_override (atStage_append.mpr ⟨?_, atStage_initFaults _ _ _⟩)
    exact (failsInBody_declaredTy _ _ _ _).faultsOf _
  | method m =>
    have hdeclared := (failsInBody_declaredTy h.table .method m.name m.returnName).faultsOf m.span
    have hparams := atStage_bindParams h ({} : Scope Local).enter m.params
    have hbody (b : Body) (locals : Scope Local) :
        AtStage .body (checkStmts b 0 locals m.body).faults :=
      atStage_checkStmts b (fun s _ => atStage_checkStmt b s) 0 locals
    have hown : (overrideFaults h m).filter (·.problem.stage = .override) = overrideFaults h m :=
      List.filter_eq_self.mpr fun f hf => decide_eq_true (atStage_overrideFaults h m f hf)
    simp only [checkFeature, checkMethod, List.filter_append, hdeclared.filter_override,
      hparams.filter_override, (hbody _ _).filter_override, hown, List.nil_append, List.append_nil]
    rfl

theorem stage_of_mem_checkFeature {f : Feature} {fault : Fault}
    (hf : fault ∈ (checkFeature h f).2) :
    fault.problem.stage = .body ∨ fault.problem.stage = .override := by
  cases f with
  | field f =>
    refine .inl ((atStage_append.mpr ⟨?_, atStage_initFaults _ _ _⟩ : AtStage .body _) fault hf)
    exact (failsInBody_declaredTy _ _ _ _).faultsOf _
  | method m =>
    simp only [checkFeature, checkMethod, List.mem_append] at hf
    rcases hf with ((hf | hf) | hf) | hf
    · exact .inl ((failsInBody_declaredTy _ _ _ _).faultsOf _ _ hf)
    · exact .inr (atStage_overrideFaults h m _ hf)
    · exact .inl (atStage_bindParams h _ _ _ hf)
    · exact .inl (atStage_checkStmts _ (fun s _ => atStage_checkStmt _ s) _ _ _ hf)

end

end Typing

/-! ## Phases -/

namespace Hierarchy

theorem stage_rejection? {t : ClassTable} {c : ClassDecl} {problem : Problem}
    (h : rejection? t c = some problem) : problem.stage = .definition := by
  unfold rejection? at h
  split at h
  · cases h
    rfl
  · obtain ⟨e, _, rfl⟩ := Option.map_eq_some_iff.mp h
    split <;> rfl

theorem stage?_register {t : ClassTable} {index : Nat} {classes : List ClassDecl} {d : Diagnostic}
    (hd : d ∈ (register t index classes).2) : d.stage? = some .definition := by
  induction classes generalizing t index with
  | nil => exact absurd hd List.not_mem_nil
  | cons c rest ih =>
    unfold register at hd
    cases hrej : rejection? t c with
    | none =>
      rw [hrej] at hd
      exact ih hd
    | some problem =>
      rw [hrej] at hd
      rcases List.mem_cons.mp hd with rfl | hd
      · exact congrArg some (stage_rejection? hrej)
      · exact ih hd

theorem stage?_linkParents {t : ClassTable} {d : Diagnostic} (hd : d ∈ (linkParents t).2) :
    d.stage? = some .parent := by
  obtain ⟨e, _, hd⟩ := List.mem_filterMap.mp hd
  obtain ⟨problem, hp, rfl⟩ := Option.map_eq_some_iff.mp hd
  simp only [parentProblem?] at hp
  split at hp
  · cases hp
    rfl
  · split at hp
    · cases hp
    · cases hp
      rfl

theorem stage?_repair {t : ClassTable} {names : List String} {d : Diagnostic}
    (hd : d ∈ (repair t names).2) : d.stage? = some .cycle := by
  induction names generalizing t with
  | nil => exact absurd hd List.not_mem_nil
  | cons name rest ih =>
    rcases List.mem_append.mp hd with hd | hd
    · unfold repairFrom at hd
      split at hd
      · exact absurd hd List.not_mem_nil
      · obtain ⟨e, _, rfl⟩ := Option.map_eq_some_iff.mp (Option.mem_toList.mp hd)
        rfl
    · exact ih hd

end Hierarchy

namespace Members

theorem atStage_bindFeatures (c : ClassDecl) (e : ClassEntry) (features : List Feature) :
    AtStage .member (bindFeatures c e features).2 := by
  induction features generalizing e with
  | nil => exact atStage_nil
  | cons f rest ih =>
    unfold bindFeatures
    cases hf : bindFeature c e f with
    | ok e' => exact ih e'
    | error problem =>
      have hproblem : problem.stage = .member := by
        cases f with
        | field f =>
          simp only [bindFeature] at hf
          split at hf
          · cases hf
            rfl
          · split at hf
            · cases hf
            · cases hf
              rfl
        | method m =>
          simp only [bindFeature] at hf
          split at hf
          · cases hf
            rfl
          · split at hf
            · cases hf
            · cases hf
              rfl
      exact atStage_cons hproblem (ih e)

theorem stage?_bind {classes : List ClassDecl} {t : ClassTable} {d : Diagnostic}
    (hd : d ∈ (bind classes t).2) : d.stage? = some .member := by
  obtain ⟨r, hr, hd⟩ := List.mem_flatMap.mp hd
  obtain ⟨e, _, rfl⟩ := List.mem_map.mp hr
  unfold bindEntry at hd
  split at hd
  · obtain ⟨f, hf, rfl⟩ := List.mem_map.mp hd
    exact congrArg some (atStage_bindFeatures _ _ _ f hf)
  · exact absurd hd List.not_mem_nil

end Members

theorem Typing.stage?_checkClasses {t : ClassTable} {classes : List ClassDecl} {d : Diagnostic}
    (hd : d ∈ (checkClasses t none 0 0 classes).diagnostics) :
    d.stage? = some .body ∨ d.stage? = some .override := by
  rw [checkClasses_none] at hd
  obtain ⟨⟨c, index⟩, _, hd⟩ := List.mem_flatMap.mp hd
  by_cases hc : IsChecked t index c
  · change d ∈ (checkClass t index c).2 at hd
    rw [checkClass_of_isChecked hc] at hd
    obtain ⟨fault, hfault, rfl⟩ := List.mem_map.mp hd
    obtain ⟨f, _, hfault⟩ := List.mem_flatMap.mp hfault
    exact (stage_of_mem_checkFeature _ hfault).imp (congrArg some) (congrArg some)
  · have hskip : checkClass t index c = (c, []) := if_neg hc
    change d ∈ (checkClass t index c).2 at hd
    rw [hskip] at hd
    exact absurd hd List.not_mem_nil

theorem EntryPoint.stage?_check {t : ClassTable} {d : Diagnostic} (hd : d ∈ check t) :
    d.stage? = none := by
  obtain ⟨f, _, rfl⟩ := List.mem_map.mp hd
  rfl

namespace Analysis

theorem diagnostics_run_none (p : Program) :
    let registered := Hierarchy.register Hierarchy.builtinTable 0 p.classes
    let linked := Hierarchy.linkParents registered.1
    let bound := Members.bind p.classes (Hierarchy.build p.classes).1
    (run none p).diagnostics =
      registered.2 ++ linked.2 ++ (Hierarchy.repair linked.1 linked.1.names).2 ++ bound.2 ++
        (checkClasses bound.1 none 0 0 p.classes).diagnostics ++ EntryPoint.check bound.1 := by
  intro registered linked bound
  rw [run_none]
  rfl

section

variable {s : Stage} (p : Program)

theorem reportsAt_entry (t : ClassTable) : reportsAt s (EntryPoint.check t) = [] :=
  reportsAt_of_none fun _ hd heq => nomatch (EntryPoint.stage?_check hd).symm.trans heq

/-- The reports of a run on which classes there are. -/
theorem definition_reports :
    reportsAt .definition (run none p).diagnostics =
      (Hierarchy.register Hierarchy.builtinTable 0 p.classes).2 := by
  have hcheck (t : ClassTable) :
      reportsAt .definition (checkClasses t none 0 0 p.classes).diagnostics = [] := by
    refine reportsAt_of_none fun d hd heq => ?_
    rcases stage?_checkClasses hd with h | h
    · cases h.symm.trans heq
    · cases h.symm.trans heq
  rw [diagnostics_run_none]
  simp only [reportsAt_append, reportsAt_entry, hcheck]
  rw [reportsAt_of_all fun _ => Hierarchy.stage?_register,
    reportsAt_of_ne (fun _ => Hierarchy.stage?_linkParents) (by decide),
    reportsAt_of_ne (fun _ => Hierarchy.stage?_repair) (by decide),
    reportsAt_of_ne (fun _ => Members.stage?_bind) (by decide)]
  simp only [List.append_nil]

/-- The reports of a run on overriding. -/
theorem override_reports :
    let t := (Members.bind p.classes (Hierarchy.build p.classes).1).1
    reportsAt .override (run none p).diagnostics =
      reportsAt .override (checkClasses t none 0 0 p.classes).diagnostics := by
  intro t
  rw [diagnostics_run_none]
  simp only [reportsAt_append, reportsAt_entry]
  rw [reportsAt_of_ne (fun _ => Hierarchy.stage?_register) (by decide),
    reportsAt_of_ne (fun _ => Hierarchy.stage?_linkParents) (by decide),
    reportsAt_of_ne (fun _ => Hierarchy.stage?_repair) (by decide),
    reportsAt_of_ne (fun _ => Members.stage?_bind) (by decide)]
  simp only [List.append_nil, List.nil_append]
  rfl

end

end Analysis

end ClassCompiler
