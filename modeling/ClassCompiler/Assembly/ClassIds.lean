import ClassCompiler.ClassTable
import ClassCompiler.Fault

/-!
# Class ids

Every class has a small number. The runtime knows the numbers of five classes; the others follow in
the order of registration.
-/

namespace ClassCompiler.Assembly

/-- The classes whose numbers the runtime knows, in the order of their numbers. -/
def fixedClasses : List String := [objectName, stringName, "Sys", mainClass, "TextIO"]

/-- The classes in the order of their numbers. -/
structure ClassIds where
  names : List String
deriving DecidableEq

namespace ClassIds

/-- Numbers the classes of a table; all the fixed classes have to be there. -/
def ofTable (t : ClassTable) : Except OutputFault ClassIds :=
  match fixedClasses.find? (!t.contains ·) with
  | some name => .error (.missingClass name)
  | none => .ok ⟨fixedClasses ++ t.names.filter (!fixedClasses.contains ·)⟩

def size (ids : ClassIds) : Nat := ids.names.length

def isEmpty (ids : ClassIds) : Bool := ids.names.isEmpty

def id? (ids : ClassIds) (name : String) : Option Nat := ids.names.findIdx? (· == name)

/-- The numbers with their classes. -/
def toList (ids : ClassIds) : List (Nat × String) := ids.names.zipIdx.map fun (n, i) => (i, n)

end ClassIds

end ClassCompiler.Assembly
