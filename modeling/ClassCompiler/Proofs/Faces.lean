import ClassCompiler.Analysis
import ClassCompiler.Proofs.ClassTree
import ClassCompiler.Proofs.TreeInduction
import ClassCompiler.Typing.Class

/-!
# Tables that look the same

An analysis looks at a class table by name only. What it can see of an entry is its face: not the
place of its declaration in the program, not the order of its members, not its children. Tables with
the same faces are interchangeable for everything that comes after binding.

Results:
1. `Interchangeable.lookupField?`, `Interchangeable.lookupMethod?`, `Interchangeable.isSubtype`: all
   questions to the table have the same answers.
2. `Interchangeable.typeOf`, `Interchangeable.faults`: one case for each shape of expression.
3. `Interchangeable.checkStmt`: one case for each shape of statement.
4. `Interchangeable.checkFeature`, `Interchangeable.check`: members and the entry point.
-/

namespace ClassCompiler

/-- What a table shows of a class. -/
structure Face where
  name : String
  parent : Option String
  location : Location
  field? : String → Option FieldBinding
  method? : String → Option MethodBinding
  /-- The method of a name in the innermost frame. -/
  ownMethod? : String → Option MethodBinding

def ClassEntry.face (e : ClassEntry) : Face where
  name := e.name
  parent := e.parent
  location := e.location
  field? := e.fields.lookup?
  method? := e.methods.lookup?
  ownMethod? := e.methods.peek?

/-- The tables have as many classes, and under each name they show the same. -/
structure Interchangeable (t t' : ClassTable) : Prop where
  size : t'.size = t.size
  face : ∀ name, (t'.find? name).map ClassEntry.face = (t.find? name).map ClassEntry.face

namespace Interchangeable

variable {t t' : ClassTable} (h : Interchangeable t t')
include h

/-! ## The table -/

theorem find?_cases (name : String) :
    t.find? name = none ∧ t'.find? name = none ∨
      ∃ e e', t.find? name = some e ∧ t'.find? name = some e' ∧ e'.face = e.face := by
  have hface := h.face name
  cases he : t.find? name with
  | none =>
    rw [he, Option.map_none, Option.map_eq_none_iff] at hface
    exact .inl ⟨rfl, hface⟩
  | some e =>
    rw [he, Option.map_some] at hface
    obtain ⟨e', he', hsame⟩ := Option.map_eq_some_iff.mp hface
    exact .inr ⟨e, e', rfl, he', hsame⟩

/-- What can be told from the face is the same in both tables. -/
theorem map_find? {α : Type} (f : Face → α) (name : String) :
    (t'.find? name).map (fun e => f e.face) = (t.find? name).map fun e => f e.face := by
  have hface := congrArg (Option.map f) (h.face name)
  rwa [Option.map_map, Option.map_map] at hface

theorem parent? : t'.parent? = t.parent? := by
  funext name
  have hjoin (o : Option ClassEntry) :
      o.bind (·.parent) = (o.map fun e => e.face.parent).join := by cases o <;> rfl
  rw [ClassTable.parent?, ClassTable.parent?, hjoin, hjoin, h.map_find?]

theorem contains : t'.contains = t.contains := by
  funext name
  have hsome := congrArg Option.isSome (h.face name)
  rwa [Option.isSome_map, Option.isSome_map] at hsome

/-- The ways up show the same faces. -/
theorem chain (steps : Nat) (name : String) :
    (t'.chain steps name).map ClassEntry.face = (t.chain steps name).map ClassEntry.face := by
  induction steps generalizing name with
  | zero => rfl
  | succ steps ih =>
    rcases h.find?_cases name with ⟨he, he'⟩ | ⟨e, e', he, he', hsame⟩
    · rw [ClassTable.chain_of_find?_eq_none he', ClassTable.chain_of_find?_eq_none he]
    · have hparent : e'.parent = e.parent := congrArg Face.parent hsame
      rw [ClassTable.chain_of_find? he', ClassTable.chain_of_find? he, List.map_cons, List.map_cons,
        hsame, hparent]
      cases e.parent with
      | none => rfl
      | some parent => exact congrArg _ (ih parent)

theorem ancestors (name : String) :
    (t'.ancestors name).map ClassEntry.face = (t.ancestors name).map ClassEntry.face := by
  rw [ClassTable.ancestors, h.size]
  exact h.chain t.size name

/-- A search on the way up that looks at faces only finds the same. -/
theorem findSome?_ancestors {α : Type} (look : Face → Option α) (name : String) :
    (t'.ancestors name).findSome? (fun e => look e.face) =
      (t.ancestors name).findSome? fun e => look e.face := by
  have hsearch := congrArg (List.findSome? look) (h.ancestors name)
  rwa [List.findSome?_map, List.findSome?_map] at hsearch

theorem lookupField? : t'.lookupField? = t.lookupField? := by
  funext cls name
  exact h.findSome?_ancestors (fun f => ((f.field? name).filter fun b =>
    f.name = cls || b.role = .declared).map (f.name, ·)) cls

theorem lookupMethod? : t'.lookupMethod? = t.lookupMethod? := by
  funext cls name
  exact h.findSome?_ancestors (fun f => (f.method? name).map (f.name, ·)) cls

theorem isSubclass : t'.isSubclass = t.isSubclass := by
  funext sub sup
  have hany := congrArg (List.any · (·.name == sup)) (h.ancestors sub)
  rwa [List.any_map, List.any_map] at hany

theorem resolveElem? : t'.resolveElem? = t.resolveElem? := by
  funext name
  cases name with
  | named name => simp only [ClassTable.resolveElem?, h.contains]
  | _ => rfl

theorem resolve? : t'.resolve? = t.resolve? := by
  funext typeName
  simp only [ClassTable.resolve?, h.resolveElem?]

theorem sameTypeName : t'.sameTypeName = t.sameTypeName := by
  funext a b
  simp only [ClassTable.sameTypeName, h.resolve?]

theorem sameSignature : t'.sameSignature = t.sameSignature := by
  funext a b
  simp only [ClassTable.sameSignature, h.sameTypeName]

theorem isSubtype : t'.isSubtype = t.isSubtype := by
  funext sub sup
  simp only [ClassTable.isSubtype, h.isSubclass]

/-! ## Names and types -/

theorem fieldTy? : Typing.fieldTy? t' = Typing.fieldTy? t := by
  funext cls name
  simp only [Typing.fieldTy?, h.lookupField?, h.resolve?]

theorem memberTy : Typing.memberTy t' = Typing.memberTy t := by
  funext object name
  simp only [Typing.memberTy, h.lookupField?, h.fieldTy?]

theorem callee : Typing.callee t' = Typing.callee t := by
  funext receiver method
  simp only [Typing.callee, Typing.receiverClass?, h.contains, h.lookupMethod?]

theorem callTy : Typing.callTy t' = Typing.callTy t := by
  funext callee
  simp only [Typing.callTy, h.resolve?]

theorem newTy : Typing.newTy t' = Typing.newTy t := by
  funext typeName
  simp only [Typing.newTy, h.resolve?]

theorem newArrayTy : Typing.newArrayTy t' = Typing.newArrayTy t := by
  funext elemName
  simp only [Typing.newArrayTy, h.resolve?]

theorem namedTy : Typing.namedTy t' = Typing.namedTy t := by
  funext typeName
  simp only [Typing.namedTy, h.resolve?]

theorem declaredTy : Typing.declaredTy t' = Typing.declaredTy t := by
  funext kind name typeName
  simp only [Typing.declaredTy, h.resolve?]

theorem argMatches : Typing.argMatches t' = Typing.argMatches t := by
  funext arg param
  simp only [Typing.argMatches, h.isSubtype]

theorem argFaults : Typing.argFaults t' = Typing.argFaults t := by
  funext method index args params
  induction args generalizing index params with
  | nil => rfl
  | cons arg args ih =>
    cases params with
    | nil => rfl
    | cons p params => simp only [Typing.argFaults, h.argMatches, h.resolve?, ih]

theorem callFaults : Typing.callFaults t' = Typing.callFaults t := by
  funext span method args callee
  simp only [Typing.callFaults, h.argFaults]

theorem conformFaults : Typing.conformFaults t' = Typing.conformFaults t := by
  funext span actual expected
  simp only [Typing.conformFaults, h.isSubtype]

theorem operandsFit : Typing.operandsFit t' = Typing.operandsFit t := by
  funext op lhs rhs
  simp only [Typing.operandsFit, h.isSubtype]

theorem binaryFaults : Typing.binaryFaults t' = Typing.binaryFaults t := by
  funext span op lhs rhs
  simp only [Typing.binaryFaults, h.operandsFit]

theorem instanceOfFaults : Typing.instanceOfFaults t' = Typing.instanceOfFaults t := by
  funext span operand tested
  simp only [Typing.instanceOfFaults, h.isSubtype]

theorem castFaults : Typing.castFaults t' = Typing.castFaults t := by
  funext span source target
  simp only [Typing.castFaults, h.isSubtype]

end Interchangeable

/-! ## Expressions -/

open Typing

namespace Typing

variable {env env' : Env}

theorem typeOf?_congr {o : Option Expr} (h : ∀ e, o = some e → typeOf env' e = typeOf env e) :
    typeOf? env' o = typeOf? env o := by
  cases o with
  | none => rfl
  | some e => exact congrArg some (h e rfl)

theorem faults?_congr {o : Option Expr} (h : ∀ e, o = some e → faults env' e = faults env e) :
    faults? env' o = faults? env o := by
  cases o with
  | none => rfl
  | some e => exact h e rfl

theorem faultsAll_congr {es : List Expr} (h : ∀ e ∈ es, faults env' e = faults env e) :
    faultsAll env' es = faultsAll env es := by
  induction es with
  | nil => rfl
  | cons e es ih =>
    simp only [faultsAll, h e List.mem_cons_self, ih fun e he => h e (List.mem_cons_of_mem _ he)]

end Typing

namespace Interchangeable

variable {env : Env} {t' : ClassTable} (h : Interchangeable env.table t')
include h

theorem nameTy (name : String) : { env with table := t' }.nameTy name = env.nameTy name := by
  simp only [Env.nameTy, h.fieldTy?]

theorem targetTy (qualifier : Option Qualifier) (name : String) :
    { env with table := t' }.targetTy qualifier name = env.targetTy qualifier name := by
  rcases qualifier with _ | _ | _
  · simp only [Env.targetTy, h.nameTy]
  · simp only [Env.targetTy, h.memberTy]
  · simp only [Env.targetTy, h.parent?, h.memberTy]

theorem refTy (object : Option Ty) (name : String) :
    { env with table := t' }.refTy object name = env.refTy object name := by
  cases object with
  | none => exact h.nameTy name
  | some ty => simp only [Env.refTy, h.memberTy]

theorem typeOf (e : Expr) : Typing.typeOf { env with table := t' } e = Typing.typeOf env e := by
  induction e using Expr.induction with
  | dispatch receiver method args mark ihr _ =>
    simp only [Typing.typeOf, typeOf?_congr ihr, h.callee, h.callTy]
  | new typeName mark => simp only [Typing.typeOf, h.newTy]
  | newArray elemName size mark _ => simp only [Typing.typeOf, h.newArrayTy]
  | cast typeName operand mark _ => simp only [Typing.typeOf, h.namedTy]
  | assign qualifier name value mark _ => simp only [Typing.typeOf, h.targetTy]
  | arrayAssign qualifier name index value mark _ _ => simp only [Typing.typeOf, h.targetTy]
  | var object name mark ih => simp only [Typing.typeOf, typeOf?_congr ih, h.refTy]
  | arrayElem object name index mark iho _ => simp only [Typing.typeOf, typeOf?_congr iho, h.refTy]
  | instanceOf | binary | unary | intLit | boolLit | stringLit => rfl

theorem annotate (e : Expr) :
    Typing.annotate { env with table := t' } e = Typing.annotate env e := by
  simp only [Typing.annotate, h.typeOf]

theorem valueFaults (e : Expr) (ty : Ty) :
    Typing.valueFaults { env with table := t' } e ty = Typing.valueFaults env e ty := by
  simp only [Typing.valueFaults, h.typeOf, h.conformFaults]

theorem faults (e : Expr) : Typing.faults { env with table := t' } e = Typing.faults env e := by
  have htype (o : Option Expr) :
      Typing.typeOf? { env with table := t' } o = Typing.typeOf? env o :=
    typeOf?_congr fun e _ => h.typeOf e
  induction e using Expr.induction with
  | dispatch receiver method args mark ihr iha =>
    have htyped : typed { env with table := t' } = typed env :=
      funext fun e => congrArg (·, e.span) (h.typeOf e)
    simp only [Typing.faults, faults?_congr ihr, faultsAll_congr iha, htype, htyped, h.callee,
      h.callFaults]
  | new typeName mark => simp only [Typing.faults, h.newTy]
  | newArray elemName size mark ih =>
    simp only [Typing.faults, ih, h.valueFaults, h.newArrayTy]
  | instanceOf operand typeName mark ih =>
    simp only [Typing.faults, ih, h.typeOf, h.namedTy, h.instanceOfFaults]
  | cast typeName operand mark ih =>
    simp only [Typing.faults, ih, h.typeOf, h.namedTy, h.castFaults]
  | assign qualifier name value mark ih =>
    simp only [Typing.faults, ih, h.targetTy, h.valueFaults]
  | arrayAssign qualifier name index value mark ihi ihv =>
    simp only [Typing.faults, ihi, ihv, h.targetTy, h.valueFaults]
  | binary op lhs rhs mark ihl ihr =>
    simp only [Typing.faults, ihl, ihr, h.typeOf, h.binaryFaults]
  | unary op after operand mark ih => simp only [Typing.faults, ih, h.typeOf]
  | var object name mark ih => simp only [Typing.faults, faults?_congr ih, htype, h.refTy]
  | arrayElem object name index mark iho ihi =>
    simp only [Typing.faults, faults?_congr iho, ihi, htype, h.refTy, h.valueFaults]
  | intLit | boolLit | stringLit => rfl

theorem faults? (o : Option Expr) :
    Typing.faults? { env with table := t' } o = Typing.faults? env o :=
  faults?_congr fun e _ => h.faults e

theorem map_annotate (o : Option Expr) :
    o.map (Typing.annotate { env with table := t' }) = o.map (Typing.annotate env) := by
  cases o with
  | none => rfl
  | some e => exact congrArg some (h.annotate e)

theorem initFaults (ty : Ty) (o : Option Expr) :
    Typing.initFaults { env with table := t' } ty o = Typing.initFaults env ty o := by
  cases o with
  | none => rfl
  | some e => simp only [Typing.initFaults, h.faults, h.valueFaults]

theorem condFaults (e : Expr) :
    Typing.condFaults { env with table := t' } e = Typing.condFaults env e := by
  simp only [Typing.condFaults, h.faults, h.valueFaults]

theorem condFaults? (o : Option Expr) :
    Typing.condFaults? { env with table := t' } o = Typing.condFaults? env o := by
  cases o with
  | none => rfl
  | some e => exact h.condFaults e

theorem returnFaults (span : Span) (ty : Ty) (o : Option Expr) :
    Typing.returnFaults { env with table := t' } span ty o =
      Typing.returnFaults env span ty o := by
  cases o with
  | none => rfl
  | some e => simp only [Typing.returnFaults, h.valueFaults]

end Interchangeable

/-! ## Statements -/

theorem Typing.checkStmts_congr {b b' : Body} {ss : List Stmt}
    (h : ∀ s ∈ ss, ∀ loops locals, checkStmt b' loops locals s = checkStmt b loops locals s)
    (loops : Nat) (locals : Scope Local) :
    checkStmts b' loops locals ss = checkStmts b loops locals ss := by
  induction ss generalizing locals with
  | nil => rfl
  | cons s ss ih =>
    simp only [checkStmts, h s List.mem_cons_self, ih fun s hs => h s (List.mem_cons_of_mem _ hs)]

theorem Interchangeable.checkStmt {b : Body} {t' : ClassTable} (h : Interchangeable b.table t')
    (s : Stmt) : ∀ loops locals,
      Typing.checkStmt { b with table := t' } loops locals s =
        Typing.checkStmt b loops locals s := by
  have hbody (locals : Scope Local) :
      { b with table := t' }.env locals = { b.env locals with table := t' } := rfl
  have henv (locals : Scope Local) : Interchangeable (b.env locals).table t' := h
  induction s using Stmt.induction with
  | decl name typeName init span =>
    intro loops locals
    simp only [Typing.checkStmt, hbody, h.declaredTy, (henv locals).initFaults,
      (henv locals).map_annotate]
  | expr e span =>
    intro loops locals
    simp only [Typing.checkStmt, hbody, (henv locals).annotate, (henv locals).faults]
  | ifElse cond t e span iht ihe =>
    intro loops locals
    have hbranch (locals : Scope Local) :
        checkBranch { b with table := t' } loops locals e = checkBranch b loops locals e := by
      cases e with
      | none => rfl
      | some s => simp only [checkBranch, ihe s rfl]
    simp only [Typing.checkStmt, hbody, (henv locals).annotate, (henv locals).condFaults, iht,
      hbranch]
  | whileLoop cond body span ih =>
    intro loops locals
    simp only [Typing.checkStmt, hbody, (henv locals).annotate, (henv locals).condFaults, ih]
  | forLoop init cond update body span ih =>
    intro loops locals
    simp only [Typing.checkStmt, hbody, (henv locals).map_annotate, (henv locals).faults?,
      (henv locals).condFaults?, ih]
  | breakLoop span => exact fun _ _ => rfl
  | block stmts span ih =>
    intro loops locals
    simp only [Typing.checkStmt, checkStmts_congr ih]
  | ret value span =>
    intro loops locals
    simp only [Typing.checkStmt, hbody, (henv locals).map_annotate, (henv locals).faults?,
      (henv locals).returnFaults]

/-! ## Members and the entry point -/

namespace Interchangeable

variable {home : Home} {t' : ClassTable} (h : Interchangeable home.table t')
include h

theorem overrideFaults (m : Method) :
    Typing.overrideFaults { home with table := t' } m = Typing.overrideFaults home m := by
  simp only [Typing.overrideFaults, h.lookupMethod?, h.sameSignature]
  rcases h.find?_cases home.cls with ⟨he, he'⟩ | ⟨e, e', he, he', hsame⟩
  · rw [he, he']
  · have hparent : e'.parent = e.parent := congrArg Face.parent hsame
    have hown : e'.methods.peek? = e.methods.peek? := congrArg Face.ownMethod? hsame
    simp only [he, he', hparent, hown]

theorem bindParams (locals : Scope Local) (ps : List Param) :
    Typing.bindParams { home with table := t' } locals ps = Typing.bindParams home locals ps := by
  induction ps generalizing locals with
  | nil => rfl
  | cons p ps ih => simp only [Typing.bindParams, h.declaredTy, ih]

theorem checkFeature (f : Feature) :
    Typing.checkFeature { home with table := t' } f = Typing.checkFeature home f := by
  cases f with
  | field f =>
    have henv : Interchangeable (⟨home.table, home.cls, {}⟩ : Env).table t' := h
    simp only [Typing.checkFeature, checkField, h.declaredTy, henv.map_annotate, henv.initFaults]
  | method m =>
    have hbody (returnTy : Ty) :
        Interchangeable (⟨home.table, home.cls, home.file, returnTy⟩ : Body).table t' := h
    simp only [Typing.checkFeature, checkMethod, h.declaredTy, h.overrideFaults, h.bindParams]
    rw [checkStmts_congr fun s _ => (hbody _).checkStmt s]

end Interchangeable

/-- The entry point is judged by faces too. -/
theorem Interchangeable.check {t t' : ClassTable} (h : Interchangeable t t') :
    EntryPoint.check t' = EntryPoint.check t := by
  have hfault : EntryPoint.fault? t' = EntryPoint.fault? t := by
    simp only [EntryPoint.fault?, h.lookupMethod?]
    rcases h.find?_cases mainClass with ⟨he, he'⟩ | ⟨e, e', he, he', hsame⟩
    · rw [he, he']
    · have hlocation : e'.location = e.location := congrArg Face.location hsame
      simp only [he, he', hlocation]
  rw [EntryPoint.check, EntryPoint.check, hfault]

end ClassCompiler
