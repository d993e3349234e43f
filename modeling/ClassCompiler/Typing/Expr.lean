import ClassCompiler.Syntax.Annotation
import ClassCompiler.Typing.Env

/-!
# Typing expressions

The type of an expression follows from its place and its shape; it never depends on whether parts of
it are at fault. The faults of an expression are those of its parts, from left to right, and then
its own. Checking leaves the locals alone, so both are plain functions of the place.
-/

namespace ClassCompiler

/-- The type of a binary operation, whatever its operands. -/
def BinaryOp.resultTy : BinaryOp → Ty
  | .add | .subtract | .multiply | .divide | .modulus => .int
  | _ => .boolean

/-- The type that both operands need; none where they need only be related. -/
def BinaryOp.operandTy? : BinaryOp → Option Ty
  | .equals | .notEquals => none
  | .and | .or => some .boolean
  | _ => some .int

/-- The type of a unary operation and of its operand. -/
def UnaryOp.ty : UnaryOp → Ty
  | .not => .boolean
  | _ => .int

namespace Typing

/-! ## Types -/

mutual

/-- The type of an expression. -/
def typeOf (env : Env) : Expr → Ty
  | .dispatch receiver method _ _ =>
    callTy env.table (callee env.table ((typeOf? env receiver).getD (.cls env.cls)) method)
  | .new typeName _ =>
    match newTy env.table typeName with
    | .ok ty => ty
    | .error _ => .object
  | .newArray elemName _ _ => tyOf (newArrayTy env.table elemName)
  | .instanceOf _ _ _ => .boolean
  | .cast typeName _ _ => tyOf (namedTy env.table typeName)
  | .assign qualifier name _ _ => tyOf (env.targetTy qualifier name)
  | .arrayAssign qualifier name _ _ _ => tyOf (elemTy name (tyOf (env.targetTy qualifier name)))
  | .binary op _ _ _ => op.resultTy
  | .unary op _ _ _ => op.ty
  | .var object name _ => tyOf (env.refTy (typeOf? env object) name)
  | .arrayElem object name _ _ => tyOf (elemTy name (tyOf (env.refTy (typeOf? env object) name)))
  | .intLit _ _ => .int
  | .boolLit _ _ => .boolean
  | .stringLit _ _ => .string

/-- The type of an optional expression. -/
def typeOf? (env : Env) : Option Expr → Option Ty
  | none => none
  | some e => some (typeOf env e)

end

/-! ## Rules that a node adds to those of its parts -/

/-- A value of one type stands where another is expected. -/
def conformFaults (t : ClassTable) (span : Span) (actual expected : Ty) : List Fault :=
  if t.isSubtype actual expected then [] else [⟨.mismatch expected actual, span⟩]

/-- An argument fits a parameter. -/
def argMatches (t : ClassTable) (arg param : Ty) : Bool :=
  arg.isUntyped || param.isUntyped ||
    if param.mustEqual then arg = param else t.isSubtype arg param

/-- The faults of the arguments from position `index` on: pairs of a type and a place against the
parameters. Arguments without a parameter are not looked at. -/
def argFaults (t : ClassTable) (method : String) (index : Nat) :
    List (Ty × Span) → List ParamType → List Fault
  | (arg, span) :: args, p :: params =>
    let param := (t.resolve? p.typeName).getD .untyped
    let rest := argFaults t method (index + 1) args params
    if argMatches t arg param then rest
    else ⟨.argMismatch method index param arg param.mustEqual, span⟩ :: rest
  | _, _ => []

def countFaults (span : Span) (method : String) (expected supplied : Nat) : List Fault :=
  if expected = supplied then [] else [⟨.wrongArgCount method expected supplied, span⟩]

def callFaults (t : ClassTable) (span : Span) (method : String) (args : List (Ty × Span)) :
    Callee → List Fault
  | .unknown => []
  | .missing problem _ => [⟨problem, span⟩]
  | .method b =>
    countFaults span method b.params.length args.length ++ argFaults t method 0 args b.params

/-- An operand has the type an operator needs, or none is known. -/
def operandFits (expected actual : Ty) : Bool := actual = expected || actual.isUntyped

def operandsFit (t : ClassTable) (op : BinaryOp) (lhs rhs : Ty) : Bool :=
  match op.operandTy? with
  | some expected => operandFits expected lhs && operandFits expected rhs
  | none => t.isSubtype lhs rhs || t.isSubtype rhs lhs

def binaryFaults (t : ClassTable) (span : Span) (op : BinaryOp) (lhs rhs : Ty) : List Fault :=
  if operandsFit t op lhs rhs then [] else [⟨.badOperands op lhs rhs, span⟩]

def unaryFaults (span : Span) (op : UnaryOp) (operand : Ty) : List Fault :=
  if operandFits op.ty operand then [] else [⟨.badOperand op operand, span⟩]

/-- A test is legal if the tested type lies below that of the operand. -/
def instanceOfFaults (t : ClassTable) (span : Span) (operand : Ty) :
    Except Problem Ty → List Fault
  | .error problem => [⟨problem, span⟩]
  | .ok tested =>
    if t.isSubtype tested operand then [] else [⟨.illegalInstanceOf operand tested, span⟩]

/-- A cast is legal between types of which one lies below the other. -/
def castFaults (t : ClassTable) (span : Span) (source : Ty) : Except Problem Ty → List Fault
  | .error problem => [⟨problem, span⟩]
  | .ok target =>
    if t.isSubtype source target || t.isSubtype target source then []
    else [⟨.illegalCast source target, span⟩]

/-! ## Faults -/

/-- The type of an expression together with its place. -/
def typed (env : Env) (e : Expr) : Ty × Span := (typeOf env e, e.span)

/-- The value of an expression stands where a type is expected. -/
def valueFaults (env : Env) (e : Expr) (expected : Ty) : List Fault :=
  conformFaults env.table e.span (typeOf env e) expected

mutual

/-- The faults of an expression, in the order they are reported. -/
def faults (env : Env) : Expr → List Fault
  | .dispatch receiver method args mark =>
    faults? env receiver ++ faultsAll env args
      ++ callFaults env.table mark.span method (args.map (typed env))
          (callee env.table ((typeOf? env receiver).getD (.cls env.cls)) method)
  | .new typeName mark => faultsOf mark.span (newTy env.table typeName)
  | .newArray elemName size mark =>
    faults env size ++ valueFaults env size .int
      ++ faultsOf mark.span (newArrayTy env.table elemName)
  | .instanceOf operand typeName mark =>
    faults env operand
      ++ instanceOfFaults env.table mark.span (typeOf env operand) (namedTy env.table typeName)
  | .cast typeName operand mark =>
    faults env operand
      ++ castFaults env.table mark.span (typeOf env operand) (namedTy env.table typeName)
  | .assign qualifier name value mark =>
    let target := env.targetTy qualifier name
    faults env value ++ faultsOf mark.span target ++ valueFaults env value (tyOf target)
  | .arrayAssign qualifier name index value mark =>
    let target := env.targetTy qualifier name
    let elem := elemTy name (tyOf target)
    faults env index ++ faults env value ++ valueFaults env index .int
      ++ faultsOf mark.span target ++ faultsOf mark.span elem ++ valueFaults env value (tyOf elem)
  | .binary op lhs rhs mark =>
    faults env lhs ++ faults env rhs
      ++ binaryFaults env.table mark.span op (typeOf env lhs) (typeOf env rhs)
  | .unary op _ operand mark =>
    faults env operand ++ unaryFaults mark.span op (typeOf env operand)
  | .var object name mark =>
    faults? env object ++ faultsOf mark.span (env.refTy (typeOf? env object) name)
  | .arrayElem object name index mark =>
    let array := env.refTy (typeOf? env object) name
    faults? env object ++ faults env index ++ valueFaults env index .int
      ++ faultsOf mark.span array ++ faultsOf mark.span (elemTy name (tyOf array))
  | .intLit _ _ => []
  | .boolLit _ _ => []
  | .stringLit _ _ => []

def faults? (env : Env) : Option Expr → List Fault
  | none => []
  | some e => faults env e

def faultsAll (env : Env) : List Expr → List Fault
  | [] => []
  | e :: es => faults env e ++ faultsAll env es

end

/-- Notes the type of every expression on it. -/
def annotate (env : Env) (e : Expr) : Expr := e.mapTy fun e => some (typeOf env e)

end Typing

end ClassCompiler
