import ClassCompiler.Typing.Expr

/-!
# Typing statements

Checking a statement gives the statement with types noted on its expressions, the locals as they are
afterwards, and the faults in the order they are reported. Branches, loop bodies and blocks are
checked in frames of their own.
-/

namespace ClassCompiler.Typing

/-- What the statements of a method body share. -/
structure Body where
  table : ClassTable
  cls : String
  file : Option String
  returnTy : Ty

def Body.env (b : Body) (locals : Scope Local) : Env := { table := b.table, cls := b.cls, locals }

/-- A checked piece of a body. -/
structure Checked (α : Type) where
  tree : α
  locals : Scope Local
  faults : List Fault

namespace Checked

variable {α β : Type}

def map (f : α → β) (c : Checked α) : Checked β := ⟨f c.tree, c.locals, c.faults⟩

/-- Leaves the frame that the piece was checked in. -/
def leave (c : Checked α) : Checked α := { c with locals := c.locals.exit }

end Checked

/-- Binds a parameter or local variable. A reserved name is never bound, and a frame keeps its first
binding. -/
def bindLocal (file : Option String) (kind : NameKind) (name : String) (l : Local)
    (locals : Scope Local) : Scope Local × List Fault :=
  if isReserved name then (locals, [⟨.reservedName kind name, l.span⟩])
  else match locals.add? name l with
    | some locals' => (locals', [])
    | none =>
      let previous := ((locals.peek? name).map (·.span)).getD {}
      (locals, [⟨.duplicateName kind name (.source file previous), l.span⟩])

/-- The faults of an initial value for something of the given type. -/
def initFaults (env : Env) (ty : Ty) : Option Expr → List Fault
  | none => []
  | some e => faults env e ++ valueFaults env e ty

/-- A condition must be boolean. -/
def condFaults (env : Env) (e : Expr) : List Fault := faults env e ++ valueFaults env e .boolean

def condFaults? (env : Env) : Option Expr → List Fault
  | none => []
  | some e => condFaults env e

/-- What is returned agrees with the return type. -/
def returnFaults (env : Env) (span : Span) (returnTy : Ty) : Option Expr → List Fault
  | none =>
    if returnTy = .untyped ∨ returnTy = .void then []
    else [⟨.missingReturnValue returnTy, span⟩]
  | some e =>
    if returnTy = .untyped then []
    else if returnTy = .void then [⟨.unexpectedReturnValue, span⟩]
    else valueFaults env e returnTy

mutual

/-- Checks a statement that stands inside `loops` loops of its method. -/
def checkStmt (b : Body) (loops : Nat) (locals : Scope Local) : Stmt → Checked Stmt
  | .decl name typeName init span =>
    let env := b.env locals
    let declared := declaredTy b.table .localVar name typeName
    let bound := bindLocal b.file .localVar name ⟨tyOf declared, span⟩ locals
    { tree := .decl name typeName (init.map (annotate env)) span
      locals := bound.1
      faults := faultsOf span declared ++ initFaults env (tyOf declared) init ++ bound.2 }
  | .expr e span =>
    let env := b.env locals
    { tree := .expr (annotate env e) span, locals, faults := faults env e }
  | .ifElse cond thenBranch elseBranch span =>
    let env := b.env locals
    let t := (checkStmt b loops locals.enter thenBranch).leave
    let e := checkBranch b loops t.locals elseBranch
    { tree := .ifElse (annotate env cond) t.tree e.tree span
      locals := e.locals
      faults := condFaults env cond ++ t.faults ++ e.faults }
  | .whileLoop cond body span =>
    let env := b.env locals
    let r := (checkStmt b (loops + 1) locals.enter body).leave
    { tree := .whileLoop (annotate env cond) r.tree span
      locals := r.locals
      faults := condFaults env cond ++ r.faults }
  | .forLoop init cond update body span =>
    let env := b.env locals
    let r := (checkStmt b (loops + 1) locals.enter body).leave
    { tree := .forLoop (init.map (annotate env)) (cond.map (annotate env))
        (update.map (annotate env)) r.tree span
      locals := r.locals
      faults := faults? env init ++ condFaults? env cond ++ faults? env update ++ r.faults }
  | .breakLoop span =>
    { tree := .breakLoop span, locals
      faults := if loops = 0 then [⟨.breakOutsideLoop, span⟩] else [] }
  | .block stmts span =>
    ((checkStmts b loops locals.enter stmts).leave).map (.block · span)
  | .ret value span =>
    let env := b.env locals
    { tree := .ret (value.map (annotate env)) span, locals
      faults := faults? env value ++ returnFaults env span b.returnTy value }

/-- Checks the branch after `else`, in a frame of its own. -/
def checkBranch (b : Body) (loops : Nat) (locals : Scope Local) :
    Option Stmt → Checked (Option Stmt)
  | none => ⟨none, locals, []⟩
  | some s => ((checkStmt b loops locals.enter s).leave).map some

/-- Checks statements one after the other; each sees what those before it declared. -/
def checkStmts (b : Body) (loops : Nat) (locals : Scope Local) : List Stmt → Checked (List Stmt)
  | [] => ⟨[], locals, []⟩
  | s :: ss =>
    let r := checkStmt b loops locals s
    let rs := checkStmts b loops r.locals ss
    ⟨r.tree :: rs.tree, rs.locals, r.faults ++ rs.faults⟩

end

end ClassCompiler.Typing
