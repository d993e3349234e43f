import ClassCompiler.Syntax

/-!
# Faults

What can be wrong with a program, with its entry point and with its assembly, and how each finding is
worded. A fault of a program is a problem together with the place it is reported at.
-/

namespace ClassCompiler

/-! ## Faults of a program -/

/-- What a name stands for. -/
inductive NameKind where
  | cls | field | method | param | localVar
deriving DecidableEq

def NameKind.text : NameKind → String
  | .cls => "class"
  | .field => "field"
  | .method => "method"
  | .param => "parameter"
  | .localVar => "local variable"

inductive Problem where
  | builtinRedefined (cls : String)
  | duplicateClass (cls : String) (previous : Location)
  | missingParent (cls parent : String)
  | finalParent (cls parent : String)
  /-- The members of the cycle, from the reported class along the parent links. -/
  | inheritanceCycle (cls : String) (cycle : List String)
  | reservedName (kind : NameKind) (name : String)
  | duplicateName (kind : NameKind) (name : String) (previous : Location)
  | invalidOverride (cls method overridden : String)
  | unknownType (typeName : String)
  | illegalVoid (kind : NameKind) (name : String)
  | mismatch (expected actual : Ty)
  | badOperands (op : BinaryOp) (lhs rhs : Ty)
  | badOperand (op : UnaryOp) (ty : Ty)
  | unknownName (name : String)
  | notAssignable (name : String)
  | noSuchField (ty : Ty) (name : String)
  | notAnArray (name : String) (ty : Ty)
  | unknownMethod (cls method : String)
  | invalidReceiver (ty : Ty) (method : String)
  | wrongArgCount (method : String) (expected supplied : Nat)
  | argMismatch (method : String) (index : Nat) (expected actual : Ty) (mustEqual : Bool)
  | illegalCast (source target : Ty)
  | illegalInstanceOf (operand tested : Ty)
  | breakOutsideLoop
  | missingReturnValue (expected : Ty)
  | unexpectedReturnValue
deriving DecidableEq

/-- A name between back quotes, as messages show it. -/
def quoted (name : String) : String := "`" ++ name ++ "`"

/-- The plural ending that goes with a number. -/
def plural (n : Nat) : String := if n = 1 then "" else "s"

/-- The wording of a problem. -/
def Problem.text : Problem → String
  | builtinRedefined c => "redefinition of the built-in class " ++ quoted c
  | duplicateClass c _ =>
    "detected multiple definition: class " ++ quoted c ++ " is already defined"
  | missingParent c p =>
    "missing superclass: class " ++ quoted c ++ " extends " ++ quoted p ++ ", which does not exist"
  | finalParent c p =>
    "illegal superclass: class " ++ quoted c ++ " extends " ++ quoted p
      ++ ", which is final and cannot have subclasses"
  | inheritanceCycle c cycle =>
    "inheritance cycle: class " ++ quoted c ++ " is part of a cycle ("
      ++ " -> ".intercalate cycle ++ " -> " ++ c ++ ")"
  | reservedName kind name =>
    quoted name ++ " is a reserved name and cannot be used as a " ++ kind.text ++ " name"
  | duplicateName kind name _ =>
    "detected multiple definition: " ++ kind.text ++ " " ++ quoted name
      ++ " is already defined in this scope"
  | invalidOverride c m overridden =>
    "invalid override: " ++ quoted (c ++ "." ++ m) ++ " does not match the signature of "
      ++ quoted (overridden ++ "." ++ m)
  | unknownType typeName => "the type name " ++ quoted typeName ++ " is not recognized"
  | illegalVoid kind name =>
    "the " ++ kind.text ++ " " ++ quoted name ++ " cannot have the type `void`"
  | mismatch expected actual =>
    "incompatible types: expected " ++ quoted expected.text ++ ", found " ++ quoted actual.text
  | badOperands op lhs rhs =>
    "incompatible types: the operator " ++ quoted op.symbol ++ " cannot be applied to "
      ++ quoted lhs.text ++ " and " ++ quoted rhs.text
  | badOperand op ty =>
    "incompatible types: the operator " ++ quoted op.symbol ++ " cannot be applied to "
      ++ quoted ty.text
  | unknownName name => "unrecognized name " ++ quoted name
  | notAssignable name => quoted name ++ " cannot be assigned to"
  | noSuchField ty name =>
    "the type " ++ quoted ty.text ++ " does not have a field named " ++ quoted name
  | notAnArray name ty =>
    quoted name ++ " has the type " ++ quoted ty.text ++ ", which is not an array type"
  | unknownMethod c m =>
    "method not found: class " ++ quoted c ++ " does not have a method named " ++ quoted m
  | invalidReceiver ty m =>
    "cannot call the method " ++ quoted m ++ " on a value of the type " ++ quoted ty.text
  | wrongArgCount m expected supplied =>
    "the method " ++ quoted m ++ " takes " ++ toString expected ++ " argument" ++ plural expected
      ++ " but " ++ toString supplied ++ " argument" ++ plural supplied
      ++ (if supplied = 1 then " was" else " were") ++ " supplied"
  | argMismatch m index expected actual mustEqual =>
    "incompatible types: argument #" ++ toString (index + 1) ++ " of " ++ quoted m ++ " must "
      ++ (if mustEqual then "be exactly " else "conform to ") ++ quoted expected.text
      ++ ", found " ++ quoted actual.text
  | illegalCast source target =>
    "illegal cast from " ++ quoted source.text ++ " to " ++ quoted target.text
      ++ ": the types are unrelated"
  | illegalInstanceOf operand tested =>
    "illegal instanceof: " ++ quoted tested.text ++ " is not a subtype of the expression type "
      ++ quoted operand.text
  | breakOutsideLoop => "`break` used outside of a loop"
  | missingReturnValue expected =>
    "missing return value: the method must return " ++ quoted expected.text
  | unexpectedReturnValue => "a `void` method cannot return a value"

/-- A problem and the place it is reported at. -/
structure Fault where
  problem : Problem
  span : Span
deriving DecidableEq

def Fault.text (f : Fault) : String := f.problem.text

/-! ## Faults of the entry point

A program starts in the method `main` of the class `Main`, which takes nothing and returns nothing.
-/

def mainClass : String := "Main"

def mainMethod : String := "main"

/-- Why a program has no usable entry point. -/
inductive EntryFault where
  | noMainClass
  | noMainMethod (location : Location)
  | badSignature (location : Location) (returnName : String) (paramCount : Nat)
deriving DecidableEq

namespace EntryFault

def location? : EntryFault → Option Location
  | noMainClass => none
  | noMainMethod l | badSignature l _ _ => some l

def span? (f : EntryFault) : Option Span := f.location?.bind Location.span?

def file? (f : EntryFault) : Option String := f.location?.bind Location.file?

/-- The span of the fault; the default span if it has no place. -/
def span (f : EntryFault) : Span := f.span?.getD {}

def text : EntryFault → String
  | noMainClass => "no " ++ quoted mainClass ++ " class found"
  | noMainMethod _ =>
    "the " ++ quoted mainClass ++ " class must define a method named " ++ quoted mainMethod
  | badSignature _ returnName paramCount =>
    "the method " ++ quoted (mainClass ++ "." ++ mainMethod)
      ++ " has an invalid signature: it must return `void` and take no parameters "
      ++ "(found a return type of " ++ quoted returnName ++ " and " ++ toString paramCount
      ++ " parameter" ++ plural paramCount ++ ")"

end EntryFault

/-! ## Faults of code generation -/

/-- Why no assembly was produced or written. -/
inductive OutputFault where
  /-- The sink refused the text, for the reason given. -/
  | notWritten (reason : String)
  /-- A class that every program needs is not in the class table. -/
  | missingClass (name : String)
  | cancelled
deriving DecidableEq

def OutputFault.text : OutputFault → String
  | notWritten reason => "could not write the output: " ++ reason
  | missingClass name =>
    "the class " ++ quoted name ++ " is required for code generation but was not found"
  | cancelled => "code generation was cancelled"

end ClassCompiler
