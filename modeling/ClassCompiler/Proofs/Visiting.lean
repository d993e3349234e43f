import ClassCompiler.Proofs.Rechecking

/-!
# The check as one pass

The check of a class can be run as one pass over its tree that carries a state along: the locals,
the method that is being checked with the number of loops around the place, and what has been
reported. The pass enters a frame and leaves it again, counts a loop and takes it off again, and
reads the type of a part from the note that it has just made on it. It fails if it takes off a loop
where none is counted.

Results:
1. `Visit.visitExpr_apply`: an expression is noted and reported as it is checked, and nothing else
   of the state changes.
2. `Visit.visitValue_apply`, `Visit.bindName_apply`, `Visit.visitReturned_apply`: the same for what
   statements do with expressions and names.
-/

namespace ClassCompiler

namespace Typing

/-- What a pass knows of the method it is in. -/
structure MethodContext where
  returnTy : Ty
  /-- The number of loops around the place. -/
  loopDepth : Nat

/-- The state of a pass over the members of a class. -/
structure Visitor where
  locals : Scope Local := {}
  /-- The method that the place is in; none outside of methods. -/
  method : Option MethodContext := none
  reported : List Fault := []

namespace Visitor

/-- The place that a pass has come to in a class. -/
def env (h : Home) (v : Visitor) : Env := { table := h.table, cls := h.cls, locals := v.locals }

def report (v : Visitor) (fs : List Fault) : Visitor := { v with reported := v.reported ++ fs }

/-- The number of loops around the place; outside of methods none is counted. -/
def loopDepth (v : Visitor) : Nat := v.method.elim 0 (·.loopDepth)

end Visitor

/-- A piece of a pass. -/
abbrev Visit := StateT Visitor Option

namespace Visit

variable {α β : Type}

def report (fs : List Fault) : Visit Unit := modify (·.report fs)

/-- Runs a piece inside a fresh frame. -/
def withScope (x : Visit α) : Visit α := do
  modify fun v => { v with locals := v.locals.enter }
  let a ← x
  modify fun v => { v with locals := v.locals.exit }
  return a

/-- Counts one loop more. -/
def enterLoop : Visit Unit :=
  modify fun v => { v with method := v.method.map fun m => { m with loopDepth := m.loopDepth + 1 } }

/-- Counts one loop less; there is no number below zero. -/
def leaveLoop : Visit Unit := fun v =>
  match v.method with
  | none => some ((), v)
  | some ⟨_, 0⟩ => none
  | some ⟨returnTy, depth + 1⟩ => some ((), { v with method := some ⟨returnTy, depth⟩ })

/-- Runs a piece as the body of a loop. -/
def withLoop (x : Visit α) : Visit α := do
  enterLoop
  let a ← withScope x
  leaveLoop
  return a

/-- The type noted on an expression; unknown if there is none. -/
def notedTy (e : Expr) : Ty := e.ty?.getD .untyped

/-- Reports the problem of a look-up and goes on with the type. -/
def settle (span : Span) (r : Except Problem Ty) : Visit Ty := do
  report (faultsOf span r)
  return tyOf r

section

variable (h : Home)

def getEnv : Visit Env := return (← get).env h

/-- The value of an expression that has been visited stands where a type is expected. -/
def expect (e : Expr) (expected : Ty) : Visit Unit :=
  report (conformFaults h.table e.span (notedTy e) expected)

mutual

def visitExpr : Expr → Visit Expr
  | .dispatch receiver method args mark => do
    let receiver ← visitExpr? receiver
    let args ← visitExprs args
    let callee := callee h.table ((receiver.map notedTy).getD (.cls h.cls)) method
    report (callFaults h.table mark.span method (args.map fun e => (notedTy e, e.span)) callee)
    return .dispatch receiver method args { mark with ty := some (callTy h.table callee) }
  | .new typeName mark => do
    let r := newTy h.table typeName
    report (faultsOf mark.span r)
    return .new typeName { mark with ty := some (r.toOption.getD .object) }
  | .newArray elemName size mark => do
    let size ← visitExpr size
    expect h size .int
    let ty ← settle mark.span (newArrayTy h.table elemName)
    return .newArray elemName size { mark with ty := some ty }
  | .instanceOf operand typeName mark => do
    let operand ← visitExpr operand
    report (instanceOfFaults h.table mark.span (notedTy operand) (namedTy h.table typeName))
    return .instanceOf operand typeName { mark with ty := some .boolean }
  | .cast typeName operand mark => do
    let operand ← visitExpr operand
    let target := namedTy h.table typeName
    report (castFaults h.table mark.span (notedTy operand) target)
    return .cast typeName operand { mark with ty := some (tyOf target) }
  | .assign qualifier name value mark => do
    let value ← visitExpr value
    let ty ← settle mark.span ((← getEnv h).targetTy qualifier name)
    expect h value ty
    return .assign qualifier name value { mark with ty := some ty }
  | .arrayAssign qualifier name index value mark => do
    let index ← visitExpr index
    let value ← visitExpr value
    expect h index .int
    let array ← settle mark.span ((← getEnv h).targetTy qualifier name)
    let ty ← settle mark.span (elemTy name array)
    expect h value ty
    return .arrayAssign qualifier name index value { mark with ty := some ty }
  | .binary op lhs rhs mark => do
    let lhs ← visitExpr lhs
    let rhs ← visitExpr rhs
    report (binaryFaults h.table mark.span op (notedTy lhs) (notedTy rhs))
    return .binary op lhs rhs { mark with ty := some op.resultTy }
  | .unary op after operand mark => do
    let operand ← visitExpr operand
    report (unaryFaults mark.span op (notedTy operand))
    return .unary op after operand { mark with ty := some op.ty }
  | .var object name mark => do
    let object ← visitExpr? object
    let ty ← settle mark.span ((← getEnv h).refTy (object.map notedTy) name)
    return .var object name { mark with ty := some ty }
  | .arrayElem object name index mark => do
    let object ← visitExpr? object
    let index ← visitExpr index
    expect h index .int
    let array ← settle mark.span ((← getEnv h).refTy (object.map notedTy) name)
    let ty ← settle mark.span (elemTy name array)
    return .arrayElem object name index { mark with ty := some ty }
  | .intLit value mark => return .intLit value { mark with ty := some .int }
  | .boolLit value mark => return .boolLit value { mark with ty := some .boolean }
  | .stringLit value mark => return .stringLit value { mark with ty := some .string }

def visitExpr? : Option Expr → Visit (Option Expr)
  | none => return none
  | some e => return some (← visitExpr e)

def visitExprs : List Expr → Visit (List Expr)
  | [] => return []
  | e :: es => do
    let e ← visitExpr e
    let es ← visitExprs es
    return e :: es

end

/-- An expression whose value has a purpose. -/
def visitValue (ty : Ty) (e : Expr) : Visit Expr := do
  let e ← visitExpr h e
  expect h e ty
  return e

def visitValue? (ty : Ty) : Option Expr → Visit (Option Expr)
  | none => return none
  | some e => return some (← visitValue h ty e)

/-- Binds a name in the innermost frame. -/
def bindName (kind : NameKind) (name : String) (l : Local) : Visit Unit := do
  let r := bindLocal h.file kind name l (← get).locals
  modify fun v => { v with locals := r.1 }
  report r.2

/-- What is returned agrees with the return type of the method. -/
def visitReturned (span : Span) (value : Option Expr) : Visit Unit := do
  match (← get).method, value with
  | none, _ => return
  | some m, none => report (returnFaults (← getEnv h) span m.returnTy none)
  | some m, some e =>
    if m.returnTy = .untyped then return
    else if m.returnTy = .void then report [⟨.unexpectedReturnValue, span⟩]
    else expect h e m.returnTy

mutual

def visitStmt : Stmt → Visit Stmt
  | .decl name typeName init span => do
    let ty ← settle span (declaredTy h.table .localVar name typeName)
    let init ← visitValue? h ty init
    bindName h .localVar name ⟨ty, span⟩
    return .decl name typeName init span
  | .expr e span => return .expr (← visitExpr h e) span
  | .ifElse cond thenBranch elseBranch span => do
    let cond ← visitValue h .boolean cond
    let thenBranch ← withScope (visitStmt thenBranch)
    let elseBranch ← visitBranch elseBranch
    return .ifElse cond thenBranch elseBranch span
  | .whileLoop cond body span => do
    let cond ← visitValue h .boolean cond
    let body ← withLoop (visitStmt body)
    return .whileLoop cond body span
  | .forLoop init cond update body span => do
    let init ← visitExpr? h init
    let cond ← visitValue? h .boolean cond
    let update ← visitExpr? h update
    let body ← withLoop (visitStmt body)
    return .forLoop init cond update body span
  | .breakLoop span => do
    if (← get).loopDepth = 0 then report [⟨.breakOutsideLoop, span⟩]
    return .breakLoop span
  | .block stmts span => return .block (← withScope (visitStmts stmts)) span
  | .ret value span => do
    let value ← visitExpr? h value
    visitReturned h span value
    return .ret value span

def visitBranch : Option Stmt → Visit (Option Stmt)
  | none => return none
  | some s => return some (← withScope (visitStmt s))

def visitStmts : List Stmt → Visit (List Stmt)
  | [] => return []
  | s :: ss => do
    let s ← visitStmt s
    let ss ← visitStmts ss
    return s :: ss

end

def visitParam (p : Param) : Visit Unit := do
  let ty ← settle p.span (declaredTy h.table .param p.name p.typeName)
  bindName h .param p.name ⟨ty, p.span⟩

/-- A method begins with locals of its own. Its parameters and the outermost statements of its body
share a frame. -/
def visitMethod (m : Method) : Visit Method := do
  let returnTy ← settle m.span (declaredTy h.table .method m.name m.returnName)
  report (overrideFaults h m)
  modify fun v => { v with locals := {}, method := some { returnTy, loopDepth := 0 } }
  let body ← withScope do
    m.params.forM (visitParam h)
    visitStmts h m.body
  modify fun v => { v with method := none }
  return { m with body }

/-- A field takes the locals as they are. -/
def visitField (f : Field) : Visit Field := do
  let ty ← settle f.span (declaredTy h.table .field f.name f.typeName)
  let init ← visitValue? h ty f.init
  return { f with init }

def visitFeature : Feature → Visit Feature
  | .field f => return .field (← visitField h f)
  | .method m => return .method (← visitMethod h m)

/-- The members of a class, one after the other in the same state. -/
def visitFeatures (features : List Feature) : Visit (List Feature) :=
  features.mapM (visitFeature h)

end

/-! ## Pieces of a pass -/

section

variable (v : Visitor)

@[simp]
theorem bind_apply (x : Visit α) (f : α → Visit β) : (x >>= f) v = (x v).bind fun r => f r.1 r.2 :=
  rfl

@[simp]
theorem map_apply (f : α → β) (x : Visit α) : (f <$> x) v = (x v).map fun r => (f r.1, r.2) := by
  show (x v).bind _ = _
  cases x v <;> rfl

@[simp]
theorem pure_apply (a : α) : (pure a : Visit α) v = some (a, v) := rfl

@[simp]
theorem get_apply : (get : Visit Visitor) v = some (v, v) := rfl

@[simp]
theorem modify_apply (f : Visitor → Visitor) : (modify f : Visit PUnit) v = some ((), f v) := rfl

@[simp]
theorem report_apply (fs : List Fault) : report fs v = some ((), v.report fs) := rfl

@[simp]
theorem settle_apply (span : Span) (r : Except Problem Ty) :
    settle span r v = some (tyOf r, v.report (faultsOf span r)) := rfl

@[simp]
theorem getEnv_apply (h : Home) : getEnv h v = some (v.env h, v) := rfl

@[simp]
theorem expect_apply (h : Home) (e : Expr) (ty : Ty) :
    expect h e ty v = some ((), v.report (conformFaults h.table e.span (notedTy e) ty)) := rfl

@[simp]
theorem env_report (h : Home) (fs : List Fault) : (v.report fs).env h = v.env h := rfl

@[simp]
theorem table_env (h : Home) : (v.env h).table = h.table := rfl

@[simp]
theorem cls_env (h : Home) : (v.env h).cls = h.cls := rfl

@[simp]
theorem report_report (fs gs : List Fault) : (v.report fs).report gs = v.report (fs ++ gs) := by
  rw [Visitor.report, Visitor.report, Visitor.report, List.append_assoc]

@[simp]
theorem report_nil : v.report [] = v := by
  rw [Visitor.report, List.append_nil]

end

/-! ## Expressions -/

theorem annotate_eq (env : Env) : annotate env = Expr.mapTy fun e => some (typeOf env e) := rfl

theorem mapTy?_eq_map (f : Expr → Option Ty) (o : Option Expr) :
    Expr.mapTy? f o = o.map (Expr.mapTy f) := by
  cases o <;> rfl

theorem typeOf?_eq_map (env : Env) (o : Option Expr) : typeOf? env o = o.map (typeOf env) := by
  cases o <;> rfl

@[simp]
theorem notedTy_mapTy (f : Expr → Ty) (e : Expr) : notedTy (e.mapTy fun e => some (f e)) = f e := by
  rw [notedTy, Expr.ty?_mapTy, Option.getD_some]

@[simp]
theorem notedTy_comp_mapTy (f : Expr → Ty) : (notedTy ∘ Expr.mapTy fun e => some (f e)) = f :=
  funext (notedTy_mapTy f)

section

variable (h : Home)

theorem visitExpr?_apply_of {o : Option Expr}
    (ih : ∀ e, o = some e → ∀ v, visitExpr h e v =
      some (annotate (v.env h) e, v.report (faults (v.env h) e))) (v : Visitor) :
    visitExpr? h o v = some (o.map (annotate (v.env h)), v.report (faults? (v.env h) o)) := by
  cases o with
  | none => simp [visitExpr?, faults?]
  | some e => simp [visitExpr?, faults?, ih e rfl]

theorem visitExprs_apply_of {es : List Expr}
    (ih : ∀ e ∈ es, ∀ v, visitExpr h e v =
      some (annotate (v.env h) e, v.report (faults (v.env h) e))) (v : Visitor) :
    visitExprs h es v = some (es.map (annotate (v.env h)), v.report (faultsAll (v.env h) es)) := by
  induction es generalizing v with
  | nil => simp [visitExprs, faultsAll]
  | cons e es ihes =>
    simp [visitExprs, faultsAll, ih e List.mem_cons_self,
      ihes fun e he => ih e (List.mem_cons_of_mem _ he)]

/-- Visiting an expression notes its types and reports its faults, and changes nothing else. -/
theorem visitExpr_apply (e : Expr) : ∀ v, visitExpr h e v =
    some (annotate (v.env h) e, v.report (faults (v.env h) e)) := by
  -- the pass takes the type of a part from its note, which is the type that was found for it
  induction e using Expr.induction with
  | dispatch receiver method args mark ihr iha =>
    intro v
    have hargs : ((fun e => (notedTy e, e.span)) ∘
        Expr.mapTy fun e => some (typeOf (v.env h) e)) = typed (v.env h) :=
      funext fun e => by simp [Expr.span_mapTy, typed]
    simp [visitExpr, visitExpr?_apply_of h ihr, visitExprs_apply_of h iha, hargs, annotate_eq,
      Expr.mapTy, typeOf, faults, mapTy?_eq_map, Expr.mapTyAll_eq_map, typeOf?_eq_map]
  | new typeName mark =>
    intro v
    cases hty : newTy h.table typeName <;>
      simp [visitExpr, annotate_eq, Expr.mapTy, typeOf, faults, hty, Except.toOption]
  | newArray elemName size mark ih =>
    intro v
    simp [visitExpr, ih, annotate_eq, Expr.mapTy, typeOf, faults, valueFaults, Expr.span_mapTy]
  | instanceOf operand typeName mark ih =>
    intro v
    simp [visitExpr, ih, annotate_eq, Expr.mapTy, typeOf, faults]
  | cast typeName operand mark ih =>
    intro v
    simp [visitExpr, ih, annotate_eq, Expr.mapTy, typeOf, faults]
  | assign qualifier name value mark ih =>
    intro v
    simp [visitExpr, ih, annotate_eq, Expr.mapTy, typeOf, faults, valueFaults, Expr.span_mapTy]
  | arrayAssign qualifier name index value mark ihi ihv =>
    intro v
    simp [visitExpr, ihi, ihv, annotate_eq, Expr.mapTy, typeOf, faults, valueFaults,
      Expr.span_mapTy]
  | binary op lhs rhs mark ihl ihr =>
    intro v
    simp [visitExpr, ihl, ihr, annotate_eq, Expr.mapTy, typeOf, faults]
  | unary op after operand mark ih =>
    intro v
    simp [visitExpr, ih, annotate_eq, Expr.mapTy, typeOf, faults]
  | var object name mark ih =>
    intro v
    simp [visitExpr, visitExpr?_apply_of h ih, annotate_eq, Expr.mapTy, typeOf, faults,
      mapTy?_eq_map, typeOf?_eq_map]
  | arrayElem object name index mark iho ihi =>
    intro v
    simp [visitExpr, visitExpr?_apply_of h iho, ihi, annotate_eq, Expr.mapTy, typeOf, faults,
      valueFaults, Expr.span_mapTy, mapTy?_eq_map, typeOf?_eq_map]
  | intLit | boolLit | stringLit =>
    intro v
    simp [visitExpr, annotate_eq, Expr.mapTy, typeOf, faults]

theorem visitExpr?_apply (o : Option Expr) (v : Visitor) :
    visitExpr? h o v = some (o.map (annotate (v.env h)), v.report (faults? (v.env h) o)) :=
  visitExpr?_apply_of h (fun e _ => visitExpr_apply h e) v

theorem visitValue_apply (ty : Ty) (e : Expr) (v : Visitor) :
    visitValue h ty e v = some (annotate (v.env h) e,
      v.report (faults (v.env h) e ++ valueFaults (v.env h) e ty)) := by
  simp [visitValue, visitExpr_apply, annotate_eq, Expr.span_mapTy, valueFaults]

theorem visitValue?_apply (ty : Ty) (o : Option Expr) (v : Visitor) :
    visitValue? h ty o v =
      some (o.map (annotate (v.env h)), v.report (initFaults (v.env h) ty o)) := by
  cases o with
  | none => simp [visitValue?, initFaults]
  | some e => simp [visitValue?, visitValue_apply, initFaults]

@[simp]
theorem bindName_apply (kind : NameKind) (name : String) (l : Local) (v : Visitor) :
    let bound := bindLocal h.file kind name l v.locals
    bindName h kind name l v = some ((), { v.report bound.2 with locals := bound.1 }) := rfl

theorem visitReturned_apply (span : Span) (value : Option Expr) {v : Visitor} {m : MethodContext}
    (hm : v.method = some m) :
    visitReturned h span (value.map (annotate (v.env h))) v =
      some ((), v.report (returnFaults (v.env h) span m.returnTy value)) := by
  cases value with
  | none => simp [visitReturned, hm]
  | some e =>
    by_cases hunknown : m.returnTy = .untyped
    · simp [visitReturned, hm, returnFaults, hunknown]
    by_cases hvoid : m.returnTy = .void
    · simp [visitReturned, hm, returnFaults, hvoid]
    · simp [visitReturned, hm, returnFaults, hunknown, hvoid, annotate_eq, Expr.span_mapTy,
        valueFaults]

end

end Visit

end Typing

end ClassCompiler
