import ClassCompiler.Text.Character

/-!
# Types

The types an expression can have, and the names of types in declarations. `Ty.untyped` is the
recovery type: an expression whose type could not be found has it, and it agrees with everything.

A declaration names its type by a text: a primitive, a class, or either followed by `[]`. Reading
such a text looks at its spelling only; whether a class of that name exists is decided later.
-/

namespace ClassCompiler

/-- The class every other class descends from. -/
def objectName : String := "Object"

/-- The class of string values. -/
def stringName : String := "String"

/-- The static type of an expression. -/
inductive Ty where
  | int
  | boolean
  | void
  /-- The type of `null`, below every class and array type. -/
  | null
  | cls (name : String)
  | array (elem : Ty)
  /-- The type of an expression whose type could not be determined. -/
  | untyped
deriving DecidableEq

namespace Ty

def object : Ty := .cls objectName

def string : Ty := .cls stringName

/-- The element type of an array type. -/
def elem? : Ty → Option Ty
  | .array elem => some elem
  | _ => none

def isUntyped : Ty → Bool
  | .untyped => true
  | _ => false

/-- Arguments for a parameter of this type must have exactly this type. -/
def mustEqual : Ty → Bool
  | .int | .boolean => true
  | .cls name => name == stringName
  | _ => false

/-- The text of a type in messages. -/
def text : Ty → String
  | .int => "int"
  | .boolean => "boolean"
  | .void => "void"
  | .null => "null"
  | .cls name => name
  | .array elem => elem.text ++ "[]"
  | .untyped => "\x7bunknown\x7d"

end Ty

/-- A type name as it is spelled in a declaration. -/
inductive TypeName where
  | int
  | boolean
  | void
  | named (name : String)
  /-- An array; the element is again the text of a type name. -/
  | array (elem : String)
deriving DecidableEq

/-- Reads a type name. The brackets must end the text, blanks in front of them are dropped, and all
other blanks belong to the name. -/
def TypeName.parse (text : String) : TypeName :=
  match text.toList.reverse with
  | ']' :: '[' :: front => .array (String.ofList (front.dropWhile Text.isBlank).reverse)
  | _ =>
    if text = "int" then .int
    else if text = "boolean" then .boolean
    else if text = "void" then .void
    else .named text

end ClassCompiler
