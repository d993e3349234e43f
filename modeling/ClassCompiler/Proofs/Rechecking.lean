import ClassCompiler.Proofs.TypingProgram

/-!
# Checking a program again

Checking notes a type on every expression. What it reports and what it notes does not depend on
notes that were there before.

Results:
1. `Expr.nodes_mapTy`, `Expr.mapTy_mapTy`: notes are set on every part of an expression, over those
   that were there, and nothing else changes.
2. `Typing.typeOf_mapTy`, `Typing.faults_mapTy`: neither the type nor the faults of an expression
   depend on notes.
3. `Typing.checkStmt_erase`, `Typing.erase_checkStmt`, `Typing.annotated_checkStmt`: a check does
   not look at notes, leaves all else as it was, and leaves no expression without a note. The same
   for features and classes.
4. `check_ignores_notes`: the same for a program, and a second check changes nothing.
-/

namespace ClassCompiler

open Typing

/-! ## Notes on expressions -/

namespace Expr

theorem mapTyAll_eq_map (f : Expr → Option Ty) (es : List Expr) :
    mapTyAll f es = es.map (mapTy f) := by
  induction es with
  | nil => rfl
  | cons e es ih => rw [mapTyAll, ih, List.map_cons]

theorem nodesAll_eq_flatMap (es : List Expr) : nodesAll es = es.flatMap nodes := by
  induction es with
  | nil => rfl
  | cons e es ih => rw [nodesAll, ih, List.flatMap_cons]

theorem span_mapTy (f : Expr → Option Ty) (e : Expr) : (e.mapTy f).span = e.span := by
  cases e <;> rfl

theorem ty?_mapTy (f : Expr → Option Ty) (e : Expr) : (e.mapTy f).ty? = f e := by
  cases e <;> rfl

/-- The parts of an expression are noted one by one. -/
theorem nodes_mapTy (f : Expr → Option Ty) (e : Expr) :
    (e.mapTy f).nodes = e.nodes.map (mapTy f) := by
  have hpart (o : Option Expr) (ih : ∀ e, o = some e → (e.mapTy f).nodes = e.nodes.map (mapTy f)) :
      nodes? (mapTy? f o) = (nodes? o).map (mapTy f) := by
    cases o with
    | none => rfl
    | some e => exact ih e rfl
  have hparts (es : List Expr) (ih : ∀ e ∈ es, (e.mapTy f).nodes = e.nodes.map (mapTy f)) :
      nodesAll (mapTyAll f es) = (nodesAll es).map (mapTy f) := by
    rw [mapTyAll_eq_map, nodesAll_eq_flatMap, nodesAll_eq_flatMap, List.flatMap_map,
      List.map_flatMap]
    exact List.flatMap_congr ih
  induction e using Expr.induction with
  | dispatch receiver method args mark ihr iha =>
    simp only [mapTy, nodes, List.map_cons, List.map_append, hpart _ ihr, hparts _ iha]
  | new typeName mark => rfl
  | newArray elemName size mark ih => simp only [mapTy, nodes, List.map_cons, ih]
  | instanceOf operand typeName mark ih => simp only [mapTy, nodes, List.map_cons, ih]
  | cast typeName operand mark ih => simp only [mapTy, nodes, List.map_cons, ih]
  | assign qualifier name value mark ih => simp only [mapTy, nodes, List.map_cons, ih]
  | arrayAssign qualifier name index value mark ihi ihv =>
    simp only [mapTy, nodes, List.map_cons, List.map_append, ihi, ihv]
  | binary op lhs rhs mark ihl ihr =>
    simp only [mapTy, nodes, List.map_cons, List.map_append, ihl, ihr]
  | unary op after operand mark ih => simp only [mapTy, nodes, List.map_cons, ih]
  | var object name mark ih => simp only [mapTy, nodes, List.map_cons, hpart _ ih]
  | arrayElem object name index mark iho ihi =>
    simp only [mapTy, nodes, List.map_cons, List.map_append, hpart _ iho, ihi]
  | intLit value mark => rfl
  | boolLit value mark => rfl
  | stringLit value mark => rfl

/-- New notes replace the old ones. They are the same as without the old ones if what is noted does
not depend on them. -/
theorem mapTy_mapTy {f g : Expr → Option Ty} (hg : ∀ e, g (e.mapTy f) = g e) (e : Expr) :
    (e.mapTy f).mapTy g = e.mapTy g := by
  have hpart (o : Option Expr) (ih : ∀ e, o = some e → (e.mapTy f).mapTy g = e.mapTy g) :
      mapTy? g (mapTy? f o) = mapTy? g o := by
    cases o with
    | none => rfl
    | some e => exact congrArg some (ih e rfl)
  have hparts (es : List Expr) (ih : ∀ e ∈ es, (e.mapTy f).mapTy g = e.mapTy g) :
      mapTyAll g (mapTyAll f es) = mapTyAll g es := by
    rw [mapTyAll_eq_map, mapTyAll_eq_map, mapTyAll_eq_map, List.map_map]
    exact List.map_congr_left ih
  induction e using Expr.induction with
  | dispatch receiver method args mark ihr iha =>
    simp only [mapTy, hpart _ ihr, hparts _ iha, ← hg (.dispatch receiver method args mark)]
  | new typeName mark => simp only [mapTy, ← hg (.new typeName mark)]
  | newArray elemName size mark ih => simp only [mapTy, ih, ← hg (.newArray elemName size mark)]
  | instanceOf operand typeName mark ih =>
    simp only [mapTy, ih, ← hg (.instanceOf operand typeName mark)]
  | cast typeName operand mark ih => simp only [mapTy, ih, ← hg (.cast typeName operand mark)]
  | assign qualifier name value mark ih =>
    simp only [mapTy, ih, ← hg (.assign qualifier name value mark)]
  | arrayAssign qualifier name index value mark ihi ihv =>
    simp only [mapTy, ihi, ihv, ← hg (.arrayAssign qualifier name index value mark)]
  | binary op lhs rhs mark ihl ihr =>
    simp only [mapTy, ihl, ihr, ← hg (.binary op lhs rhs mark)]
  | unary op after operand mark ih => simp only [mapTy, ih, ← hg (.unary op after operand mark)]
  | var object name mark ih => simp only [mapTy, hpart _ ih, ← hg (.var object name mark)]
  | arrayElem object name index mark iho ihi =>
    simp only [mapTy, hpart _ iho, ihi, ← hg (.arrayElem object name index mark)]
  | intLit value mark => simp only [mapTy, ← hg (.intLit value mark)]
  | boolLit value mark => simp only [mapTy, ← hg (.boolLit value mark)]
  | stringLit value mark => simp only [mapTy, ← hg (.stringLit value mark)]

theorem erase_mapTy (f : Expr → Option Ty) (e : Expr) : (e.mapTy f).erase = e.erase :=
  mapTy_mapTy (fun _ => rfl) e

end Expr

/-! ## Types and faults of expressions -/

namespace Typing

variable (env : Env) (f : Expr → Option Ty)

theorem typeOf?_mapTy {o : Option Expr}
    (h : ∀ e, o = some e → typeOf env (e.mapTy f) = typeOf env e) :
    typeOf? env (Expr.mapTy? f o) = typeOf? env o := by
  cases o with
  | none => rfl
  | some e => exact congrArg some (h e rfl)

theorem typeOf_mapTy (e : Expr) : typeOf env (e.mapTy f) = typeOf env e := by
  -- only calls and members look at the type of a part
  induction e using Expr.induction with
  | dispatch receiver method args mark ihr _ =>
    simp only [Expr.mapTy, typeOf, typeOf?_mapTy env f ihr]
  | var object name mark ih => simp only [Expr.mapTy, typeOf, typeOf?_mapTy env f ih]
  | arrayElem object name index mark iho _ =>
    simp only [Expr.mapTy, typeOf, typeOf?_mapTy env f iho]
  | new | newArray | instanceOf | cast | assign | arrayAssign | binary | unary => rfl
  | intLit | boolLit | stringLit => rfl

theorem valueFaults_mapTy (e : Expr) (ty : Ty) :
    valueFaults env (e.mapTy f) ty = valueFaults env e ty := by
  rw [valueFaults, Expr.span_mapTy, typeOf_mapTy, valueFaults]

theorem typed_mapTy (e : Expr) : typed env (e.mapTy f) = typed env e := by
  rw [typed, Expr.span_mapTy, typeOf_mapTy, typed]

theorem faultsAll_eq_flatMap (es : List Expr) : faultsAll env es = es.flatMap (faults env) := by
  induction es with
  | nil => rfl
  | cons e es ih => rw [faultsAll, ih, List.flatMap_cons]

theorem faults?_mapTy {o : Option Expr}
    (h : ∀ e, o = some e → faults env (e.mapTy f) = faults env e) :
    faults? env (Expr.mapTy? f o) = faults? env o := by
  cases o with
  | none => rfl
  | some e => exact h e rfl

theorem faults_mapTy (e : Expr) : faults env (e.mapTy f) = faults env e := by
  have htype (o : Option Expr) : typeOf? env (Expr.mapTy? f o) = typeOf? env o :=
    typeOf?_mapTy env f fun e _ => typeOf_mapTy env f e
  have hparts (es : List Expr) (ih : ∀ e ∈ es, faults env (e.mapTy f) = faults env e) :
      faultsAll env (Expr.mapTyAll f es) = faultsAll env es := by
    rw [Expr.mapTyAll_eq_map, faultsAll_eq_flatMap, faultsAll_eq_flatMap, List.flatMap_map]
    exact List.flatMap_congr ih
  have hargs (es : List Expr) : (Expr.mapTyAll f es).map (typed env) = es.map (typed env) := by
    rw [Expr.mapTyAll_eq_map, List.map_map]
    exact List.map_congr_left fun e _ => typed_mapTy env f e
  induction e using Expr.induction with
  | dispatch receiver method args mark ihr iha =>
    simp only [Expr.mapTy, faults, faults?_mapTy env f ihr, hparts _ iha, hargs, htype]
  | newArray elemName size mark ih => simp only [Expr.mapTy, faults, ih, valueFaults_mapTy]
  | instanceOf operand typeName mark ih => simp only [Expr.mapTy, faults, ih, typeOf_mapTy]
  | cast typeName operand mark ih => simp only [Expr.mapTy, faults, ih, typeOf_mapTy]
  | assign qualifier name value mark ih => simp only [Expr.mapTy, faults, ih, valueFaults_mapTy]
  | arrayAssign qualifier name index value mark ihi ihv =>
    simp only [Expr.mapTy, faults, ihi, ihv, valueFaults_mapTy]
  | binary op lhs rhs mark ihl ihr => simp only [Expr.mapTy, faults, ihl, ihr, typeOf_mapTy]
  | unary op after operand mark ih => simp only [Expr.mapTy, faults, ih, typeOf_mapTy]
  | var object name mark ih => simp only [Expr.mapTy, faults, faults?_mapTy env f ih, htype]
  | arrayElem object name index mark iho ihi =>
    simp only [Expr.mapTy, faults, faults?_mapTy env f iho, ihi, htype, valueFaults_mapTy]
  | new | intLit | boolLit | stringLit => rfl

/-- What is noted replaces earlier notes and does not depend on them. -/
theorem annotate_mapTy (e : Expr) : annotate env (e.mapTy f) = annotate env e :=
  Expr.mapTy_mapTy (fun e => congrArg some (typeOf_mapTy env f e)) e

theorem annotate_erase (e : Expr) : annotate env e.erase = annotate env e := annotate_mapTy env _ e

theorem erase_annotate (e : Expr) : (annotate env e).erase = e.erase := Expr.erase_mapTy _ e

theorem map_annotate_erase (e : Option Expr) :
    (e.map Expr.erase).map (annotate env) = e.map (annotate env) := by
  rw [Option.map_map]
  exact congrFun (congrArg Option.map (funext (annotate_erase env))) e

theorem map_erase_annotate (e : Option Expr) :
    (e.map (annotate env)).map Expr.erase = e.map Expr.erase := by
  rw [Option.map_map]
  exact congrFun (congrArg Option.map (funext (erase_annotate env))) e

/-! ## Statements -/

theorem faults_erase (e : Expr) : faults env e.erase = faults env e := faults_mapTy env _ e

theorem faults?_erase (e : Option Expr) : faults? env (e.map Expr.erase) = faults? env e := by
  cases e with
  | none => rfl
  | some e => exact faults_erase env e

theorem initFaults_erase (ty : Ty) (e : Option Expr) :
    initFaults env ty (e.map Expr.erase) = initFaults env ty e := by
  cases e with
  | none => rfl
  | some e =>
    show faults env e.erase ++ valueFaults env e.erase ty = _
    rw [Expr.erase, faults_mapTy, valueFaults_mapTy, initFaults]

theorem condFaults_erase (e : Expr) : condFaults env e.erase = condFaults env e := by
  rw [condFaults, Expr.erase, faults_mapTy, valueFaults_mapTy, condFaults]

theorem condFaults?_erase (e : Option Expr) :
    condFaults? env (e.map Expr.erase) = condFaults? env e := by
  cases e with
  | none => rfl
  | some e => exact condFaults_erase env e

theorem returnFaults_erase (span : Span) (ty : Ty) (e : Option Expr) :
    returnFaults env span ty (e.map Expr.erase) = returnFaults env span ty e := by
  cases e with
  | none => rfl
  | some e => simp only [Option.map_some, returnFaults, Expr.erase, valueFaults_mapTy]

section

variable (b : Body)

theorem checkStmts_erase {ss : List Stmt}
    (ih : ∀ s ∈ ss, ∀ loops locals, checkStmt b loops locals s.erase = checkStmt b loops locals s)
    (loops : Nat) (locals : Scope Local) :
    checkStmts b loops locals (Stmt.eraseAll ss) = checkStmts b loops locals ss := by
  induction ss generalizing locals with
  | nil => rfl
  | cons s ss ihss =>
    simp only [Stmt.eraseAll, checkStmts, ih s List.mem_cons_self,
      ihss fun s hs => ih s (List.mem_cons_of_mem _ hs)]

/-- Checking a statement gives the same tree, locals and faults whatever was noted before. -/
theorem checkStmt_erase (s : Stmt) :
    ∀ loops locals, checkStmt b loops locals s.erase = checkStmt b loops locals s := by
  induction s using Stmt.induction with
  | decl name typeName init span =>
    intro loops locals
    simp only [Stmt.erase, checkStmt, map_annotate_erase, initFaults_erase]
  | expr e span =>
    intro loops locals
    simp only [Stmt.erase, checkStmt, annotate_erase, faults_erase]
  | ifElse cond t e span iht ihe =>
    intro loops locals
    have hbranch (locals : Scope Local) :
        checkBranch b loops locals (Stmt.erase? e) = checkBranch b loops locals e := by
      cases e with
      | none => rfl
      | some s => simp only [Stmt.erase?, checkBranch, ihe s rfl]
    simp only [Stmt.erase, checkStmt, annotate_erase, condFaults_erase, iht, hbranch]
  | whileLoop cond body span ih =>
    intro loops locals
    simp only [Stmt.erase, checkStmt, annotate_erase, condFaults_erase, ih]
  | forLoop init cond update body span ih =>
    intro loops locals
    simp only [Stmt.erase, checkStmt, map_annotate_erase, faults?_erase, condFaults?_erase, ih]
  | breakLoop span => exact fun _ _ => rfl
  | block stmts span ih =>
    intro loops locals
    simp only [Stmt.erase, checkStmt, checkStmts_erase b ih]
  | ret value span =>
    intro loops locals
    simp only [Stmt.erase, checkStmt, map_annotate_erase, faults?_erase, returnFaults_erase]

theorem eraseAll_checkStmts {ss : List Stmt}
    (ih : ∀ s ∈ ss, ∀ loops locals, (checkStmt b loops locals s).tree.erase = s.erase)
    (loops : Nat) (locals : Scope Local) :
    Stmt.eraseAll (checkStmts b loops locals ss).tree = Stmt.eraseAll ss := by
  induction ss generalizing locals with
  | nil => rfl
  | cons s ss ihss =>
    simp only [Stmt.eraseAll, checkStmts, ih s List.mem_cons_self,
      ihss fun s hs => ih s (List.mem_cons_of_mem _ hs)]

/-- Checking a statement changes nothing of it but the notes. -/
theorem erase_checkStmt (s : Stmt) :
    ∀ loops locals, (checkStmt b loops locals s).tree.erase = s.erase := by
  induction s using Stmt.induction with
  | decl name typeName init span =>
    intro loops locals
    simp only [Stmt.erase, checkStmt, map_erase_annotate]
  | expr e span =>
    intro loops locals
    simp only [Stmt.erase, checkStmt, erase_annotate]
  | ifElse cond t e span iht ihe =>
    intro loops locals
    have hbranch (locals : Scope Local) :
        Stmt.erase? (checkBranch b loops locals e).tree = Stmt.erase? e := by
      cases e with
      | none => rfl
      | some s => simp only [checkBranch, Checked.map, Checked.leave, Stmt.erase?, ihe s rfl]
    simp only [Stmt.erase, checkStmt, Checked.leave, erase_annotate, iht, hbranch]
  | whileLoop cond body span ih =>
    intro loops locals
    simp only [Stmt.erase, checkStmt, Checked.leave, erase_annotate, ih]
  | forLoop init cond update body span ih =>
    intro loops locals
    simp only [Stmt.erase, checkStmt, Checked.leave, map_erase_annotate, ih]
  | breakLoop span => exact fun _ _ => rfl
  | block stmts span ih =>
    intro loops locals
    simp only [checkStmt, Checked.map, Checked.leave, Stmt.erase, eraseAll_checkStmts b ih]
  | ret value span =>
    intro loops locals
    simp only [Stmt.erase, checkStmt, map_erase_annotate]

end

/-! ## Every expression has a note -/

/-- Every expression among the nodes has a type noted on it. -/
def Annotated (nodes : List Node) : Prop := ∀ e, .expr e ∈ nodes → e.ty? ≠ none

theorem annotated_append {ns ns' : List Node} :
    Annotated (ns ++ ns') ↔ Annotated ns ∧ Annotated ns' := by
  simp only [Annotated, List.mem_append, or_imp, forall_and]

theorem annotated_stmt {s : Stmt} {ns : List Node} : Annotated (.stmt s :: ns) ↔ Annotated ns := by
  simp [Annotated]

theorem annotated_ofExpr (e : Expr) : Annotated (Node.ofExpr (annotate env e)) := by
  intro n hn
  obtain ⟨_, hn, heq⟩ := List.mem_map.mp hn
  cases heq
  rw [annotate, Expr.nodes_mapTy] at hn
  obtain ⟨part, _, rfl⟩ := List.mem_map.mp hn
  rw [Expr.ty?_mapTy]
  exact Option.some_ne_none _

theorem annotated_ofExpr? (e : Option Expr) : Annotated (Node.ofExpr? (e.map (annotate env))) := by
  cases e with
  | none => exact fun _ hn => absurd hn List.not_mem_nil
  | some e => exact annotated_ofExpr env e

section

variable (b : Body)

theorem annotated_checkStmts {ss : List Stmt}
    (ih : ∀ s ∈ ss, ∀ loops locals, Annotated (checkStmt b loops locals s).tree.nodes)
    (loops : Nat) (locals : Scope Local) :
    Annotated (Stmt.nodesAll (checkStmts b loops locals ss).tree) := by
  induction ss generalizing locals with
  | nil => exact fun _ hn => absurd hn List.not_mem_nil
  | cons s ss ihss =>
    refine annotated_append.mpr ⟨ih s List.mem_cons_self loops locals, ?_⟩
    exact ihss (fun s hs => ih s (List.mem_cons_of_mem _ hs)) _

theorem annotated_checkStmt (s : Stmt) :
    ∀ loops locals, Annotated (checkStmt b loops locals s).tree.nodes := by
  induction s using Stmt.induction with
  | decl name typeName init span =>
    intro loops locals
    exact annotated_stmt.mpr (annotated_ofExpr? _ init)
  | expr e span =>
    intro loops locals
    exact annotated_stmt.mpr (annotated_ofExpr _ e)
  | ifElse cond t e span iht ihe =>
    intro loops locals
    have hbranch (locals : Scope Local) :
        Annotated (Stmt.nodes? (checkBranch b loops locals e).tree) := by
      cases e with
      | none => exact fun _ hn => absurd hn List.not_mem_nil
      | some s => exact ihe s rfl loops _
    refine annotated_stmt.mpr (annotated_append.mpr ⟨annotated_append.mpr ⟨?_, ?_⟩, hbranch _⟩)
    · exact annotated_ofExpr _ cond
    · exact iht loops _
  | whileLoop cond body span ih =>
    intro loops locals
    exact annotated_stmt.mpr (annotated_append.mpr ⟨annotated_ofExpr _ cond, ih _ _⟩)
  | forLoop init cond update body span ih =>
    intro loops locals
    simp only [checkStmt, Stmt.nodes, annotated_stmt, annotated_append]
    exact ⟨⟨⟨annotated_ofExpr? _ init, annotated_ofExpr? _ cond⟩, annotated_ofExpr? _ update⟩,
      ih _ _⟩
  | breakLoop span => exact fun _ _ => annotated_stmt.mpr fun _ hn => absurd hn List.not_mem_nil
  | block stmts span ih =>
    intro loops locals
    exact annotated_stmt.mpr (annotated_checkStmts b ih loops _)
  | ret value span =>
    intro loops locals
    exact annotated_stmt.mpr (annotated_ofExpr? _ value)

end

/-! ## Classes -/

section

variable (h : Home)

theorem checkFeature_erase (f : Feature) : checkFeature h f.erase = checkFeature h f := by
  cases f with
  | field f =>
    simp only [Feature.erase, checkFeature, checkField, map_annotate_erase, initFaults_erase]
  | method m =>
    simp only [Feature.erase, checkFeature, checkMethod, overrideFaults,
      checkStmts_erase _ fun s _ => checkStmt_erase _ s]

theorem erase_checkFeature (f : Feature) : (checkFeature h f).1.erase = f.erase := by
  cases f with
  | field f => simp only [Feature.erase, checkFeature, checkField, map_erase_annotate]
  | method m =>
    simp only [Feature.erase, checkFeature, checkMethod,
      eraseAll_checkStmts _ fun s _ => erase_checkStmt _ s]

theorem annotated_checkFeature (f : Feature) : Annotated (checkFeature h f).1.nodes := by
  intro e he
  cases f with
  | field f =>
    rcases List.mem_cons.mp he with heq | he
    · exact nomatch heq
    · exact annotated_ofExpr? _ f.init e he
  | method m =>
    rcases List.mem_cons.mp he with heq | he
    · exact nomatch heq
    rcases List.mem_append.mp he with he | he
    · obtain ⟨_, _, heq⟩ := List.mem_map.mp he
      exact nomatch heq
    · exact annotated_checkStmts _ (fun s _ => annotated_checkStmt _ s) _ _ e he

end

section

variable {t : ClassTable} {index : Nat} {c : ClassDecl}

theorem checkClass_of_not_isChecked (hc : ¬ IsChecked t index c) :
    checkClass t index c = (c, []) :=
  if_neg hc

/-- Checking a class changes nothing of it but the notes. -/
theorem erase_checkClass : (checkClass t index c).1.erase = c.erase := by
  by_cases hc : IsChecked t index c
  · rw [checkClass_of_isChecked hc]
    show { c with features := _ } = { c with features := _ }
    rw [checkedClass, List.map_map]
    refine congrArg (fun features => { c with features }) (List.map_congr_left fun f _ => ?_)
    exact erase_checkFeature (homeOf t c) f
  · rw [checkClass_of_not_isChecked hc]

/-- What is found in a class does not depend on the notes. -/
theorem checkClass_erase (hc : IsChecked t index c) :
    checkClass t index c.erase = checkClass t index c := by
  have hc' : IsChecked t index c.erase := hc
  have hhome : homeOf t c.erase = homeOf t c := rfl
  have hfeature (f : Feature) := checkFeature_erase (homeOf t c) f
  rw [checkClass_of_isChecked hc, checkClass_of_isChecked hc', checkedClass, checkedClass, hhome]
  simp only [ClassDecl.erase, List.map_map, List.flatMap_map, Function.comp_def, hfeature]

theorem diagnostics_checkClass_erase (c : ClassDecl) :
    (checkClass t index c.erase).2 = (checkClass t index c).2 := by
  by_cases hc : IsChecked t index c
  · rw [checkClass_erase hc]
  · have hc' : ¬ IsChecked t index c.erase := hc
    rw [checkClass_of_not_isChecked hc, checkClass_of_not_isChecked hc']

/-- A class that is checked comes out the same whatever was noted on it. -/
theorem checkClass_congr (hc : IsChecked t index c) {d : ClassDecl} (h : c.erase = d.erase) :
    checkClass t index c = checkClass t index d := by
  have hname : c.name = d.name := (congrArg ClassDecl.name h :)
  have hd : IsChecked t index d := by
    rw [IsChecked, ← hname]
    exact hc
  rw [← checkClass_erase hc, h, checkClass_erase hd]

theorem checkClass_checkClass :
    (checkClass t index (checkClass t index c).1).1 = (checkClass t index c).1 := by
  by_cases hc : IsChecked t index c
  · rw [← checkClass_congr hc erase_checkClass.symm]
  · rw [checkClass_of_not_isChecked hc, checkClass_of_not_isChecked hc]

theorem annotated_checkClass (hc : IsChecked t index c) :
    Annotated (checkClass t index c).1.nodes := by
  intro e he
  rw [checkClass_of_isChecked hc] at he
  rcases List.mem_cons.mp he with heq | he
  · exact nomatch heq
  obtain ⟨f', hf', he⟩ := List.mem_flatMap.mp he
  obtain ⟨f, _, rfl⟩ := List.mem_map.mp hf'
  exact annotated_checkFeature (homeOf t c) f e he

end

/-! ## Programs -/

section

variable (t : ClassTable)

theorem getElem?_checkClasses (classes : List ClassDecl) (i : Nat) :
    (checkClasses t none 0 0 classes).classes[i]? =
      classes[i]?.map fun c => (checkClass t i c).1 := by
  rw [checkClasses_none, List.getElem?_map, List.getElem?_zipIdx, Option.map_map, Nat.zero_add]
  rfl

theorem diagnostics_checkClasses_congr {cs ds : List ClassDecl}
    (h : cs.map ClassDecl.erase = ds.map ClassDecl.erase) :
    (checkClasses t none 0 0 cs).diagnostics = (checkClasses t none 0 0 ds).diagnostics := by
  have herase (classes : List ClassDecl) : (checkClasses t none 0 0 classes).diagnostics =
      (checkClasses t none 0 0 (classes.map ClassDecl.erase)).diagnostics := by
    rw [checkClasses_none, checkClasses_none, List.zipIdx_map, List.flatMap_map]
    exact List.flatMap_congr fun ci _ => (diagnostics_checkClass_erase ci.1).symm
  rw [herase cs, h, ← herase ds]

theorem erase_checkClasses (classes : List ClassDecl) :
    (checkClasses t none 0 0 classes).classes.map ClassDecl.erase =
      classes.map ClassDecl.erase := by
  refine List.ext_getElem? fun i => ?_
  rw [List.getElem?_map, List.getElem?_map, getElem?_checkClasses, Option.map_map]
  exact congrFun (congrArg Option.map (funext fun c => erase_checkClass)) _

/-- To check a program again is to repeat the reports. -/
theorem checkClasses_checkClasses (classes : List ClassDecl) :
    checkClasses t none 0 0 (checkClasses t none 0 0 classes).classes =
      checkClasses t none 0 0 classes := by
  have hclasses : (checkClasses t none 0 0 (checkClasses t none 0 0 classes).classes).classes =
      (checkClasses t none 0 0 classes).classes := by
    refine List.ext_getElem? fun i => ?_
    rw [getElem?_checkClasses, getElem?_checkClasses, Option.map_map]
    exact congrFun (congrArg Option.map (funext fun c => checkClass_checkClass)) _
  have hreports := diagnostics_checkClasses_congr t (erase_checkClasses t classes)
  have hfinished (cs : List ClassDecl) : (checkClasses t none 0 0 cs).finished = true := by
    rw [checkClasses_none]
  show CheckRun.mk _ _ _ = CheckRun.mk _ _ _
  rw [hclasses, hreports, hfinished, hfinished]

end

end Typing

/-- Let two programs differ in nothing but the types noted on their expressions, and let a table be
given. The check reports the same of both. A class that the table has as the definition of its name
comes out the same from both, with a type noted on every expression; any other class is left as it
is. Nothing but notes has changed then, and checking what came out repeats the reports and changes
nothing any more. -/
theorem check_ignores_notes (t : ClassTable) (p q : Program) (h : p.erase = q.erase) :
    let checked := checkClasses t none 0 0 p.classes
    let other := checkClasses t none 0 0 q.classes
    checked.diagnostics = other.diagnostics ∧
      (∀ i c, p.classes[i]? = some c → IsChecked t i c →
        ∃ c', checked.classes[i]? = some c' ∧ other.classes[i]? = some c' ∧
          ∀ e, .expr e ∈ c'.nodes → e.ty? ≠ none) ∧
      (∀ i c, p.classes[i]? = some c → ¬ IsChecked t i c → checked.classes[i]? = some c) ∧
      Program.erase { p with classes := checked.classes } = p.erase ∧
      checkClasses t none 0 0 checked.classes = checked := by
  intro checked other
  have hclasses : p.classes.map ClassDecl.erase = q.classes.map ClassDecl.erase :=
    congrArg Program.classes h
  refine ⟨diagnostics_checkClasses_congr t hclasses, fun i c hc hchecked => ?_,
    fun i c hc hskipped => ?_, ?_, checkClasses_checkClasses t p.classes⟩
  · have hget := congrArg (·[i]?) hclasses
    simp only [List.getElem?_map, hc, Option.map_some] at hget
    obtain ⟨d, hd, herase⟩ := Option.map_eq_some_iff.mp hget.symm
    refine ⟨(checkClass t i c).1, ?_, ?_, annotated_checkClass hchecked⟩
    · rw [getElem?_checkClasses, hc, Option.map_some]
    · rw [getElem?_checkClasses, hd, Option.map_some, checkClass_congr hchecked herase.symm]
  · rw [getElem?_checkClasses, hc, Option.map_some, checkClass_of_not_isChecked hskipped]
  · rw [Program.erase, erase_checkClasses]
    rfl

/-- A class with two faults and a class that is not registered, with notes from nowhere. -/
def staleNotes : Program where
  classes := [
    { name := "Cell"
      features := [
        .field { name := "value", typeName := "int"
                 init := some (.stringLit "zero" { ty := some .int }) },
        .method {
          name := "get", returnName := "int"
          body := [.ret (some (.binary .add (.var none "value" { ty := some .boolean })
            (.var none "missing" { ty := some (.cls "Cell") }) {})) {}] }] },
    { name := "int"
      features := [.field { name := "value", typeName := "int", init := some (.intLit 0 {}) }] }]

theorem check_ignores_notes_staleNotes :
    let t := (Members.bind staleNotes.classes (Hierarchy.build staleNotes.classes).1).1
    let checked := checkClasses t none 0 0 staleNotes.classes
    staleNotes.erase = staleNotes.erase.erase ∧ staleNotes.notes ≠ staleNotes.erase.notes ∧
      checked.diagnostics = (checkClasses t none 0 0 staleNotes.erase.classes).diagnostics ∧
      checked.diagnostics.length = 2 ∧
      checked.classes[1]? = staleNotes.classes[1]? ∧
      checkClasses t none 0 0 checked.classes = checked := by
  intro t checked
  obtain ⟨hreports, _, hskipped, _, hagain⟩ := check_ignores_notes t staleNotes staleNotes.erase rfl
  refine ⟨rfl, by decide, hreports, by decide, ?_, hagain⟩
  exact hskipped 1 _ rfl (by unfold IsChecked; decide)

end ClassCompiler
