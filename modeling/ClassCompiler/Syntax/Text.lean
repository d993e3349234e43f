import ClassCompiler.Syntax.OfTree
import ClassCompiler.Tree.Layout
import ClassCompiler.Tree.Parse

/-!
# Programs as text

A program is dumped in one of two layouts. The layout `ron` can be read back and takes only programs
that are not nested too deeply; the layout `debug` takes all programs and is there to be looked at.
-/

namespace ClassCompiler

inductive DumpFormat where
  | debug | ron
deriving DecidableEq

/-- Why a program could not be dumped. -/
inductive DumpFault where
  | tooDeep
deriving DecidableEq

def DumpFault.text : DumpFault → String
  | .tooDeep =>
    "Exceeded recursion limit, try increasing the limit and using `serde_stacker` to protect "
      ++ "against a stack overflow"

/-- Why a text stands for no program, in the words of its reader, and where reading came to an end. -/
structure LoadFault where
  code : String
  line : UInt64 := 1
  col : UInt64 := 1
deriving DecidableEq

namespace LoadFault

/-- Readers count lines and columns only. -/
def position (f : LoadFault) : Position := { line := f.line, col := f.col }

def span (f : LoadFault) : Span := { first := f.position, last := f.position }

def text (f : LoadFault) : String := f.position.text ++ ": " ++ f.code

end LoadFault

namespace Program

/-- The text of a program, ended by a line feed. -/
def dump (format : DumpFormat) (p : Program) : Except DumpFault String :=
  match format with
  | .debug => .ok (Tree.Layout.debug.render 0 p.toTree ++ "\n")
  | .ron =>
    if p.toTree.depth ≤ Tree.maxDepth then .ok (Tree.Layout.ron.render 0 p.toTree ++ "\n")
    else .error .tooDeep

/-- The program that a text stands for. -/
def load? (s : String) : Option Program := do
  let (extensions, t) ← Tree.parse? s
  ofTree? { extensions } t

/-- The program that a text stands for. The reader of trees does not say where it came to an end, so
a fault points at the start. -/
def load (s : String) : Except LoadFault Program :=
  match load? s with
  | some p => .ok p
  | none => .error { code := "not a program tree" }

end Program

end ClassCompiler
