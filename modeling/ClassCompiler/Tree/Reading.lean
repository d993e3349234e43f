import ClassCompiler.Tree.Extension

/-!
# Values from trees

Readers turn trees into values of some type. Reading takes levels: one for a record and one for each
of its fields, one for a list and one for each of its items, one for a value that may be missing, and
two for a case of an enumeration. A value that takes more levels than are left cannot be read. Values
that nobody asks for are skipped, which takes levels for their brackets, items, fields and entries.
-/

namespace ClassCompiler.Tree

/-- What reading a value may rely on. -/
structure Reading where
  extensions : Extensions := {}
  /-- The levels that are left. -/
  levels : Nat := maxDepth

/-- The reading so many levels further down. -/
def Reading.down? (r : Reading) (n : Nat) : Option Reading :=
  if n ≤ r.levels then some { r with levels := r.levels - n } else none

mutual

/-- Whether a value can be skipped with so many levels left. -/
def skips (levels : Nat) : Tree → Bool
  | .number .. | .fraction _ | .char _ | .text _ | .flag _ | .absent | .word _ | .unit => true
  | .joined isName t => isName && skips levels t
  | .present t => 1 ≤ levels && skips (levels - 1) t
  | .list items | .tuple _ items => 1 ≤ levels && skipsItems (levels - 1) items
  | .map entries => 1 ≤ levels && skipsEntries (levels - 1) entries
  | .record _ fields => 1 ≤ levels && skipsFields (levels - 1) fields

def skipsItems (levels : Nat) : List Tree → Bool
  | [] => true
  | t :: ts => 1 ≤ levels && skips (levels - 1) t && skipsItems levels ts

def skipsEntries (levels : Nat) : List (Tree × Tree) → Bool
  | [] => true
  | e :: es => 1 ≤ levels && skipsEntry (levels - 1) e && skipsEntries levels es

def skipsEntry (levels : Nat) : Tree × Tree → Bool
  | (key, t) => skips levels key && skips levels t

def skipsFields (levels : Nat) : List (String × Tree) → Bool
  | [] => true
  | f :: fs => 1 ≤ levels && skipsField (levels - 1) f && skipsFields levels fs

def skipsField (levels : Nat) : String × Tree → Bool
  | (_, t) => skips levels t

end

/-- A way to read values of a type. -/
abbrev Reader (α : Type) := Reading → Tree → Option α

namespace Reader

/-- Values that take no levels. -/
def plain {α : Type} (read : Tree → Option α) : Reader α := fun _ t => read t

def word : Reader UInt64 := plain uint64?

def int : Reader Int32 := plain int32?

def text : Reader String := plain text?

def flag : Reader Bool := plain flag?

/-- A value that may be missing. -/
def option {α : Type} (read : Reader α) : Reader (Option α)
  | _, .absent => some none
  | r, .present t => (r.down? 1).bind fun r => (read r t).map some
  | r, .joined _ t | r, t =>
    if r.extensions.implicitSome then (r.down? 1).bind fun r => (read r t).map some else none

def list {α : Type} (read : Reader α) : Reader (List α)
  | r, .list items => (r.down? 1).bind fun r => items.mapM fun t => (r.down? 1).bind fun r => read r t
  | _, _ => none

/-- A case without a value, one of the given ones. -/
def bareCase {α : Type} (label : α → String) (cases : List α) : Reader α
  | r, .word name => (r.down? 2).bind fun _ => cases.find? (label · == name)
  | _, _ => none

end Reader

/-- The fields of a record that is being read, and the reading for their values. -/
structure Fields where
  reading : Reading
  entries : List (String × Tree)

namespace Fields

/-- The value of a field that must be there. -/
def need? {α : Type} (fs : Fields) (key : String) (read : Reader α) : Option α :=
  (fs.entries.lookup key).bind (read fs.reading)

/-- The value of a field that has a default. -/
def getD? {α : Type} (fs : Fields) (key : String) (default : α) (read : Reader α) : Option α :=
  match fs.entries.lookup key with
  | none => some default
  | some t => read fs.reading t

/-- The value of an optional field. -/
def option? {α : Type} (fs : Fields) (key : String) (read : Reader α) : Option (Option α) :=
  fs.getD? key none (.option read)

/-- The value of a list field. -/
def list? {α : Type} (fs : Fields) (key : String) (read : Reader α) : Option (List α) :=
  fs.getD? key [] (.list read)

end Fields

/-- The name of a record may be left out but must be the given one. None of the known fields occurs
twice, and other fields are skipped. -/
def isRecordOf (name : String) (known : List String) (r : Reading) (found : Option String)
    (fields : List (String × Tree)) : Bool :=
  found.all (· == name) && known.all (fun key => fields.countP (·.1 == key) ≤ 1)
    && fields.all fun (key, t) => known.contains key || skips r.levels t

namespace Reader

/-- The fields of a record with a given name and some known fields. -/
def fields (name : String) (known : List String) : Reader Fields
  | r, .unit => (r.down? 1).map fun r => { reading := r, entries := [] }
  | r, .record found entries =>
    (r.down? (if entries.isEmpty then 1 else 2)).bind fun r =>
      if isRecordOf name known r found entries then some { reading := r, entries } else none
  | _, _ => none

/-- The name of a case that holds a record, the reading for the record, and the record. -/
def recordCase (r : Reading) (t : Tree) : Option (String × Reading × Tree) :=
  (r.down? 2).bind fun inner =>
    match r.extensions.unwrapsCases, t with
    | false, .tuple (some case) [t] => some (case, inner, t)
    | true, .record (some case) entries => some (case, inner, .record none entries)
    | _, _ => none

end Reader

end ClassCompiler.Tree
