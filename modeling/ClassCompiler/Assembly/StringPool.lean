import ClassCompiler.Syntax.Node

/-!
# The string pool

Distinct strings, numbered in the order they are first met.
-/

namespace ClassCompiler.Assembly

structure StringPool where
  strings : List String := []
deriving DecidableEq

namespace StringPool

def size (p : StringPool) : Nat := p.strings.length

def isEmpty (p : StringPool) : Bool := p.strings.isEmpty

def index? (p : StringPool) (s : String) : Option Nat := p.strings.findIdx? (· == s)

/-- Adds a string unless it is there already. -/
def insert (p : StringPool) (s : String) : StringPool :=
  if p.strings.contains s then p else ⟨p.strings ++ [s]⟩

/-- The number that a string has once it is added: its own if it is there already, else the
next. -/
def numberFor (p : StringPool) (s : String) : Nat := (p.index? s).getD p.size

def ofList (strings : List String) : StringPool := strings.foldl insert {}

/-- The strings with their numbers. -/
def toList (p : StringPool) : List (Nat × String) := p.strings.zipIdx.map fun (s, i) => (i, s)

end StringPool

/-- The value of a string literal. -/
def literal? : Expr → Option String
  | .stringLit value _ => some value
  | _ => none

/-- The string literals of a program, also of classes that are not registered. -/
def literals (p : Program) : StringPool := .ofList (p.exprs.filterMap literal?)

/-- The source files of a program. -/
def sourceFiles (p : Program) : StringPool := .ofList (p.classes.filterMap (·.file))

end ClassCompiler.Assembly
