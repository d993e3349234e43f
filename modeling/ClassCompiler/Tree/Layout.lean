import ClassCompiler.Tree
import ClassCompiler.Tree.Quoted

/-!
# Layouts of value trees

Two ways to write a value tree. Both put every field of a record and every item of a list on a line
of its own and indent by four blanks; they differ in the brackets of records and in whether tuples
are spread over lines as well.
-/

namespace ClassCompiler.Tree

structure Layout where
  recordOpen : String
  recordClose : String
  /-- Whether the items of a tuple stand on lines of their own. -/
  spreadsTuples : Bool
  /-- Whether an apostrophe in a text is escaped. -/
  escapesApostrophe : Bool

namespace Layout

/-- The layout for looking at. -/
def debug : Layout :=
  { recordOpen := " \x7b", recordClose := "\x7d", spreadsTuples := true, escapesApostrophe := false }

/-- The layout that can be read back. -/
def ron : Layout :=
  { recordOpen := "(", recordClose := ")", spreadsTuples := false, escapesApostrophe := true }

def blanks (indent : Nat) : String := String.ofList (List.replicate (4 * indent) ' ')

def signText : Option Sign → String
  | none => ""
  | some .plus => "+"
  | some .minus => "-"

mutual

def render (l : Layout) (indent : Nat) : Tree → String
  | .number sign n => signText sign ++ toString n
  | .fraction s => s
  | .char c => "'" ++ String.ofList (Quoted.encodeChar true c) ++ "'"
  | .text s => Quoted.encode l.escapesApostrophe s
  | .flag b => if b then "true" else "false"
  | .absent => "None"
  | .present t =>
    if l.spreadsTuples then
      "Some(\n" ++ blanks (indent + 1) ++ render l (indent + 1) t ++ ",\n" ++ blanks indent ++ ")"
    else "Some(" ++ render l indent t ++ ")"
  | .joined _ t => "Some" ++ render l indent t
  | .word name => name
  | .unit => "()"
  | .list items =>
    if items.isEmpty then "[]"
    else "[\n" ++ renderLines l (indent + 1) items ++ blanks indent ++ "]"
  | .map entries =>
    "\x7b\n" ++ renderEntries l (indent + 1) entries ++ blanks indent ++ "\x7d"
  | .tuple name items =>
    if l.spreadsTuples then
      name.getD "" ++ "(\n" ++ renderLines l (indent + 1) items ++ blanks indent ++ ")"
    else name.getD "" ++ "(" ++ renderInline l indent items ++ ")"
  | .record name fields =>
    name.getD "" ++ l.recordOpen ++ "\n" ++ renderFields l (indent + 1) fields ++ blanks indent
      ++ l.recordClose

/-- Items on lines of their own. -/
def renderLines (l : Layout) (indent : Nat) : List Tree → String
  | [] => ""
  | t :: ts => blanks indent ++ render l indent t ++ ",\n" ++ renderLines l indent ts

/-- Items on one line. -/
def renderInline (l : Layout) (indent : Nat) : List Tree → String
  | [] => ""
  | t :: ts => render l indent t ++ (if ts.isEmpty then "" else ", ") ++ renderInline l indent ts

def renderEntries (l : Layout) (indent : Nat) : List (Tree × Tree) → String
  | [] => ""
  | e :: es => blanks indent ++ renderEntry l indent e ++ ",\n" ++ renderEntries l indent es

def renderEntry (l : Layout) (indent : Nat) : Tree × Tree → String
  | (key, t) => render l indent key ++ ": " ++ render l indent t

def renderFields (l : Layout) (indent : Nat) : List (String × Tree) → String
  | [] => ""
  | f :: fs => blanks indent ++ renderField l indent f ++ ",\n" ++ renderFields l indent fs

def renderField (l : Layout) (indent : Nat) : String × Tree → String
  | (key, t) => key ++ ": " ++ render l indent t

end

end Layout

end ClassCompiler.Tree
