import ClassCompiler.ClassTable
import ClassCompiler.Fault

/-!
# Names and their types

What a name means at a place in a class: a local variable, a field, a member of an object, the
target of an assignment, a method. A look-up that fails gives the problem; the type is then unknown.
-/

namespace ClassCompiler.Typing

structure Local where
  ty : Ty
  span : Span
deriving DecidableEq

/-- A place in the body of a class. -/
structure Env where
  table : ClassTable
  /-- The class that the place is in. -/
  cls : String
  locals : Scope Local

/-- The type that a look-up found, unknown if it failed. -/
def tyOf : Except Problem Ty → Ty
  | .ok ty => ty
  | .error _ => .untyped

/-- The problem of a look-up, reported at a place. -/
def faultsOf {α : Type} (span : Span) : Except Problem α → List Fault
  | .ok _ => []
  | .error problem => [⟨problem, span⟩]

/-- The type of a field as seen from a class. A field of an unknown type was reported at its
declaration; the names `this` and `super` have no type if there is no class behind them. -/
def fieldTy? (t : ClassTable) (cls name : String) : Option Ty :=
  (t.lookupField? cls name).map fun (_, b) =>
    match b.role with
    | .declared => (t.resolve? b.typeName).getD .untyped
    | .this | .super => if b.typeName = "" then .untyped else .cls b.typeName

/-- A field of a value. Arrays have a length. -/
def memberTy (t : ClassTable) (object : Ty) (name : String) : Except Problem Ty :=
  match object with
  | .untyped => .ok .untyped
  | .array _ => if name = "length" then .ok .int else .error (.noSuchField object name)
  | .cls c =>
    if ((t.lookupField? c name).any fun (_, b) => b.role = .declared) then
      .ok ((fieldTy? t c name).getD .untyped)
    else .error (.noSuchField object name)
  | _ => .error (.noSuchField object name)

namespace Env

/-- An unqualified name: `null`, else the innermost local variable, else a field. -/
def nameTy (env : Env) (name : String) : Except Problem Ty :=
  if name = "null" then .ok .null
  else match env.locals.lookup? name with
    | some l => .ok l.ty
    | none =>
      match fieldTy? env.table env.cls name with
      | some ty => .ok ty
      | none => .error (.unknownName name)

/-- The target of an assignment. -/
def targetTy (env : Env) : Option Qualifier → String → Except Problem Ty
  | none, name => if isReserved name then .error (.notAssignable name) else env.nameTy name
  | some .this, name => memberTy env.table (.cls env.cls) name
  | some .super, name =>
    match env.table.parent? env.cls with
    | some parent => memberTy env.table (.cls parent) name
    | none => .ok .untyped

/-- A name, or a member of an object of the given type. -/
def refTy (env : Env) (object : Option Ty) (name : String) : Except Problem Ty :=
  match object with
  | some ty => memberTy env.table ty name
  | none => env.nameTy name

end Env

/-- The elements of what a name refers to. -/
def elemTy (name : String) : Ty → Except Problem Ty
  | .array elem => .ok elem
  | .untyped => .ok .untyped
  | ty => .error (.notAnArray name ty)

/-- What a call leads to. -/
inductive Callee where
  /-- The type of the receiver is unknown, so nothing can be said about the call. -/
  | unknown
  | method (binding : MethodBinding)
  /-- There is nothing to call; the call then has the fallback type. -/
  | missing (problem : Problem) (fallback : Ty)

/-- The class that a receiver of the given type belongs to. Arrays are objects. -/
def receiverClass? (t : ClassTable) : Ty → Option String
  | .cls name => if t.contains name then some name else none
  | .array _ => some objectName
  | _ => none

def callee (t : ClassTable) (receiver : Ty) (method : String) : Callee :=
  if receiver = .untyped then .unknown
  else match receiverClass? t receiver with
    | none => .missing (.invalidReceiver receiver method) .untyped
    | some cls =>
      match t.lookupMethod? cls method with
      | none => .missing (.unknownMethod cls method) .object
      | some (_, b) => .method b

/-- The type of a call. -/
def callTy (t : ClassTable) : Callee → Ty
  | .unknown => .untyped
  | .missing _ fallback => fallback
  | .method b => (t.resolve? b.returnName).getD .untyped

/-- The type of an object made by `new`; anything but a class falls back to `Object`. -/
def newTy (t : ClassTable) (typeName : String) : Except Problem Ty :=
  match t.resolve? typeName with
  | some (.cls name) => .ok (.cls name)
  | _ => .error (.unknownType typeName)

/-- The type of a new array. -/
def newArrayTy (t : ClassTable) (elemName : String) : Except Problem Ty :=
  match t.resolve? elemName with
  | none | some .void | some (.array _) => .error (.unknownType elemName)
  | some elem => .ok (.array elem)

/-- A type that is named in an expression. -/
def namedTy (t : ClassTable) (typeName : String) : Except Problem Ty :=
  match t.resolve? typeName with
  | some ty => .ok ty
  | none => .error (.unknownType typeName)

/-- The type of a declared thing. Only a method may be `void`. -/
def declaredTy (t : ClassTable) (kind : NameKind) (name typeName : String) : Except Problem Ty :=
  match t.resolve? typeName with
  | none => .error (.unknownType typeName)
  | some ty =>
    if ty = .void ∧ kind ≠ .method then .error (.illegalVoid kind name) else .ok ty

end ClassCompiler.Typing
