import ClassCompiler.Syntax

/-!
# What the language provides

Reserved names, and the classes that exist in every program.
-/

namespace ClassCompiler

/-- Names that no class, member or variable can have. -/
def reservedNames : List String := ["null", "this", "super", "void", "int", "boolean"]

def isReserved (name : String) : Bool := reservedNames.contains name

namespace Builtin

/-- A method that the runtime implements. -/
def method (name returnName : String) (params : List (String × String) := []) : Feature :=
  .method { name, returnName, params := params.map fun (name, typeName) => { name, typeName } }

def field (name typeName : String) (init : Option Int32 := none) : Feature :=
  .field { name, typeName, init := init.map (.intLit · {}) }

def object : ClassDecl where
  name := objectName
  features := [
    method "clone" "Object",
    method "equals" "boolean" [("o", "Object")],
    method "toString" "String"]

def string : ClassDecl where
  name := stringName
  parent := some objectName
  features := [
    field "length" "int",
    method "length" "int",
    method "equals" "boolean" [("str", "Object")],
    method "toString" "String",
    method "substring" "String" [("beginIndex", "int"), ("endIndex", "int")],
    method "concat" "String" [("str", "String")]]

def sys : ClassDecl where
  name := "Sys"
  parent := some objectName
  features := [
    method "exit" "void" [("status", "int")],
    method "time" "int",
    method "random" "int"]

def textStream : ClassDecl where
  name := "TextIO"
  parent := some objectName
  features := [
    field "readFD" "int",
    field "writeFD" "int" (some 1),
    method "readStdin" "void",
    method "readFile" "void" [("readFile", "String")],
    method "writeStdout" "void",
    method "writeStderr" "void",
    method "writeFile" "void" [("writeFile", "String")],
    method "getString" "String",
    method "getInt" "int",
    method "putString" "TextIO" [("output", "String")],
    method "putInt" "TextIO" [("output", "int")]]

end Builtin

/-- The classes the runtime provides. The root comes first; the others extend it and cannot be
extended themselves. -/
def builtinClasses : List ClassDecl :=
  [Builtin.object, Builtin.string, Builtin.sys, Builtin.textStream]

end ClassCompiler
