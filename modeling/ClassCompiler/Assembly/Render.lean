import ClassCompiler.Assembly.ClassIds
import ClassCompiler.Assembly.DispatchTable
import ClassCompiler.Assembly.Line
import ClassCompiler.Assembly.StringPool

/-!
# The assembly of a program

The data segment holds the flag for the garbage collector, the string records, the table of class
names, the object templates and the dispatch tables; the text segment holds a stub for every class
and every method of the program.
-/

namespace ClassCompiler.Assembly

/-- The number of the class of strings. -/
def stringId : UInt64 := 1

def headerLines (gc : Bool) : List Line :=
  [.segment ".data", .global Label.gcFlag, .global Label.classNameTable,
    .label Label.gcFlag, .count (if gc then 1 else 0)]

/-- A string object. Its size counts bytes, its length counts characters. -/
def stringRecord (label value : String) : List Line :=
  [.label label, .count stringId, .count (stringObjectSize value.utf8ByteSize.toUInt64),
    .word (Label.dispatchTable stringName), .count value.length.toUInt64,
    .directive ".asciiz" ("\"" ++ Quoted.encode value ++ "\""), .directive ".align" "2"]

def stringRecords (label : Nat → String) (strings : List (Nat × String)) : List Line :=
  strings.flatMap fun (index, value) => stringRecord (label index) value

def stringLines (ids : ClassIds) (p : Program) : List Line :=
  stringRecords Label.className ids.toList
    ++ stringRecords Label.fileName (sourceFiles p).toList
    ++ stringRecords Label.stringConst (literals p).toList

def classNameLines (ids : ClassIds) : List Line :=
  .label Label.classNameTable :: (ids.toList.map fun (id, _) => .word (Label.className id))
    ++ ids.toList.map fun (_, name) => .global (Label.template name)

/-- The object that instances of a class are copied from. -/
def templateLines (ids : ClassIds) (e : ClassEntry) : List Line :=
  [.label (Label.template e.name), .word (toString ((ids.id? e.name).getD 0)),
    .count (instanceSize e.declaredFieldCount.toUInt64), .word (Label.dispatchTable e.name)]
    ++ List.replicate e.declaredFieldCount (.count 0)

def dispatchLines (t : ClassTable) (e : ClassEntry) : List Line :=
  [.global (Label.dispatchTable e.name), .label (Label.dispatchTable e.name)]
    ++ (DispatchTable.ofClass t e.name).slots.map fun s => .word (Label.method s.definer s.method)

/-! ## Stubs

The stub of a method tells how many places its locals need: one for each parameter and for each
declaration anywhere in its body.
-/

/-- A node that needs a place of its own. -/
def bindsLocal : Node → Bool
  | .param _ => true
  | .stmt (.decl _ _ _ _) => true
  | _ => false

def localCount (m : Method) : Nat := m.nodes.countP bindsLocal

/-- The count for every method that a program declares. -/
def localCounts (p : Program) : List (String × String × Nat) :=
  p.classes.flatMap fun c => c.methods.map fun m => (c.name, m.name, localCount m)

def returnLine : Line := .instr "jr\t$ra"

def initLines (e : ClassEntry) : List Line := [.label (Label.init e.name), returnLine]

/-- The stub of a method, if the program has its declaration. -/
def methodLines (p : Program) (e : ClassEntry) (name : String) : List Line :=
  match (e.origin.decl? p.classes).bind fun c => c.methods.find? (·.name == name) with
  | none => []
  | some m =>
    [.label (Label.method e.name name), .comment ("locals: " ++ toString (localCount m)),
      returnLine]

/-- The stubs of the methods of a class; the runtime has those of built-in classes. -/
def stubLines (p : Program) (e : ClassEntry) : List Line :=
  if e.isBuiltin then [] else e.declaredMethods.flatMap (methodLines p e)

/-! ## The whole text -/

/-- The entries of the classes in the order of their numbers. -/
def entriesById (t : ClassTable) (ids : ClassIds) : List ClassEntry := ids.names.filterMap t.find?

def lines (t : ClassTable) (p : Program) (gc : Bool) (ids : ClassIds) : List Line :=
  let entries := entriesById t ids
  headerLines gc ++ stringLines ids p ++ classNameLines ids
    ++ entries.flatMap (templateLines ids) ++ entries.flatMap (dispatchLines t)
    ++ .segment ".text" :: (entries.flatMap initLines ++ entries.flatMap (stubLines p))

/-- The text of the assembly. A cancelled run gives none; a missing class is noticed before. -/
def render (t : ClassTable) (p : Program) (gc cancelled : Bool) : Except OutputFault String :=
  match ClassIds.ofTable t with
  | .error fault => .error fault
  | .ok ids => if cancelled then .error .cancelled else .ok (textOf (lines t p gc ids))

end ClassCompiler.Assembly
