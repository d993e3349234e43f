import ClassCompiler.ClassTable
import ClassCompiler.Diagnostic

/-!
# Building the class hierarchy

The classes of a program are registered after the built-in ones, each is linked to its parent, and
cycles of parent links are dissolved. Whatever is wrong is reported and mended on the spot, so the
result is always a tree with `Object` at its root.
-/

namespace ClassCompiler.Hierarchy

/-! ## Registration -/

/-- The entry of a built-in class. Only the root can be extended. -/
def builtinEntry (index : Nat) (c : ClassDecl) : ClassEntry where
  name := c.name
  declaredParent := c.parent
  extendable := c.parent.isNone
  origin := .builtin index
  location := .builtin

def builtinTable : ClassTable :=
  ⟨builtinClasses.zipIdx.map fun (c, index) => builtinEntry index c⟩

/-- The entry of a class of the program. -/
def userEntry (index : Nat) (c : ClassDecl) : ClassEntry where
  name := c.name
  declaredParent := some (c.parent.getD objectName)
  origin := .user index
  location := .source c.file c.span

/-- Why a class cannot be registered, if it cannot. -/
def rejection? (t : ClassTable) (c : ClassDecl) : Option Problem :=
  if isReserved c.name then some (.reservedName .cls c.name)
  else (t.find? c.name).map fun e =>
    if e.isBuiltin then .builtinRedefined c.name else .duplicateClass c.name e.location

/-- Registers the classes from the given index on; a rejected class is reported and left out. -/
def register (t : ClassTable) (index : Nat) : List ClassDecl → ClassTable × List Diagnostic
  | [] => (t, [])
  | c :: rest =>
    match rejection? t c with
    | some problem =>
      let r := register t (index + 1) rest
      (r.1, Fault.diagnostic c.file ⟨problem, c.span⟩ :: r.2)
    | none => register (t.push (userEntry index c)) (index + 1) rest

/-! ## Parent links -/

/-- The class that an entry is linked to: its declared parent if there is one of that name. -/
def resolvedParent (t : ClassTable) (e : ClassEntry) : String :=
  let parent := e.declaredParent.getD objectName
  if t.contains parent then parent else objectName

/-- What is wrong with the declared parent of an entry. -/
def parentProblem? (t : ClassTable) (e : ClassEntry) : Option Problem :=
  let parent := e.declaredParent.getD objectName
  match t.find? parent with
  | none => some (.missingParent e.name parent)
  | some p => if p.extendable then none else some (.finalParent e.name parent)

/-- A problem with an entry, reported where the class is defined. -/
def report (e : ClassEntry) (problem : Problem) : Diagnostic :=
  Fault.diagnostic e.location.file? ⟨problem, e.location.span⟩

/-- The entries that have a parent. -/
def linked (t : ClassTable) : List ClassEntry := t.entries.filter (·.name ≠ objectName)

/-- Links every class but the root to its parent, in the order of registration. -/
def linkParents (t : ClassTable) : ClassTable × List Diagnostic :=
  ((linked t).foldl (fun acc e => acc.setParent e.name (resolvedParent t e)) t,
    (linked t).filterMap fun e => (parentProblem? t e).map (report e))

/-! ## Cycles -/

/-- The first class that a walk up from `name` meets a second time. -/
def firstRevisited? (t : ClassTable) :
    (steps : Nat) → (visited : List String) → (name : String) → Option String
  | 0, _, _ => none
  | steps + 1, visited, name =>
    if visited.contains name then some name
    else (t.parent? name).bind (firstRevisited? t steps (name :: visited))

/-- The classes from `name` along the parent links until `start` comes round again. -/
def cycleFrom (t : ClassTable) (start : String) : (steps : Nat) → (name : String) → List String
  | 0, _ => []
  | steps + 1, name =>
    name :: match t.parent? name with
      | none => []
      | some parent => if parent = start then [] else cycleFrom t start steps parent

/-- The members of the cycle through `start`, beginning with it. -/
def cycleOf (t : ClassTable) (start : String) : List String := cycleFrom t start t.size start

/-- Puts every member of a cycle under the root. -/
def dissolve (t : ClassTable) (cycle : List String) : ClassTable :=
  cycle.foldl (fun acc name => acc.setParent name objectName) t

/-- Dissolves the cycle that a walk up from `name` runs into. -/
def repairFrom (t : ClassTable) (name : String) : ClassTable × List Diagnostic :=
  match firstRevisited? t (t.size + 1) [] name with
  | none => (t, [])
  | some start =>
    let cycle := cycleOf t start
    (dissolve t cycle,
      ((t.find? start).map (report · (.inheritanceCycle start cycle))).toList)

/-- Dissolves the cycles met from the given classes. -/
def repair (t : ClassTable) : List String → ClassTable × List Diagnostic
  | [] => (t, [])
  | name :: rest =>
    let r := repairFrom t name
    let s := repair r.1 rest
    (s.1, r.2 ++ s.2)

/-- The class table of a program, with what had to be reported on the way. -/
def build (classes : List ClassDecl) : ClassTable × List Diagnostic :=
  let registered := register builtinTable 0 classes
  let linked := linkParents registered.1
  let repaired := repair linked.1 linked.1.names
  (repaired.1, registered.2 ++ linked.2 ++ repaired.2)

end ClassCompiler.Hierarchy
