import ClassCompiler.Builtin
import ClassCompiler.Position
import ClassCompiler.Scope
import ClassCompiler.Ty

/-!
# The class table

One entry per class, in the order of registration. Classes refer to each other by name. Looking for
a member walks up the parent links; the walk takes at most as many steps as there are classes, so it
ends whatever the links are.
-/

namespace ClassCompiler

/-- Where the declaration of a class stands: in the list of built-in classes or in the program. -/
inductive Origin where
  | builtin (index : Nat)
  | user (index : Nat)
deriving DecidableEq

namespace Origin

def isBuiltin : Origin → Bool
  | builtin _ => true
  | user _ => false

/-- The declaration at an origin, given the classes of the program. -/
def decl? (classes : List ClassDecl) : Origin → Option ClassDecl
  | builtin index => builtinClasses[index]?
  | user index => classes[index]?

end Origin

/-- How a name got into the field table of a class. -/
inductive FieldRole where
  | declared
  /-- The name `this`, bound to the class itself. -/
  | this
  /-- The name `super`, bound to the parent. -/
  | super
deriving DecidableEq

structure FieldBinding where
  /-- The declared type; for `this` and `super` the name of the class, empty above the root. -/
  typeName : String
  role : FieldRole
  location : Location
deriving DecidableEq

structure ParamType where
  name : String
  typeName : String
deriving DecidableEq

structure MethodBinding where
  returnName : String
  params : List ParamType
  location : Location
deriving DecidableEq

inductive Member where
  | field (name : String)
  | method (name : String)
deriving DecidableEq

def Member.name : Member → String
  | field name | method name => name

structure ClassEntry where
  name : String
  parent : Option String := none
  /-- The parent as written in the declaration. -/
  declaredParent : Option String
  children : List String := []
  fields : Scope FieldBinding := {}
  methods : Scope MethodBinding := {}
  /-- The class's own members in the order of declaration. -/
  members : List Member := []
  extendable : Bool := true
  origin : Origin
  location : Location
deriving DecidableEq

namespace ClassEntry

def isBuiltin (e : ClassEntry) : Bool := e.origin.isBuiltin

/-- The names of the class's own methods in the order of declaration. -/
def declaredMethods (e : ClassEntry) : List String :=
  e.members.filterMap fun
    | .method name => some name
    | .field _ => none

/-- The number of fields the class declares itself. -/
def declaredFieldCount (e : ClassEntry) : Nat :=
  e.fields.toList.countP fun (_, b) => b.role = .declared

end ClassEntry

structure ClassTable where
  entries : List ClassEntry
deriving DecidableEq

namespace ClassTable

def size (t : ClassTable) : Nat := t.entries.length

def names (t : ClassTable) : List String := t.entries.map (·.name)

def find? (t : ClassTable) (name : String) : Option ClassEntry :=
  t.entries.find? (·.name == name)

def contains (t : ClassTable) (name : String) : Bool := (t.find? name).isSome

/-- The parent of a class. -/
def parent? (t : ClassTable) (name : String) : Option String := (t.find? name).bind (·.parent)

/-- Adds an entry at the end. -/
def push (t : ClassTable) (e : ClassEntry) : ClassTable := ⟨t.entries ++ [e]⟩

/-- Changes the entry of a name. -/
def modify (t : ClassTable) (name : String) (f : ClassEntry → ClassEntry) : ClassTable :=
  ⟨t.entries.map fun e => if e.name = name then f e else e⟩

/-- Puts a class under a parent: it leaves the child list of its old parent and goes to the end of
the new one. -/
def setParent (t : ClassTable) (child parent : String) : ClassTable :=
  let t := match t.parent? child with
    | some old => t.modify old fun e => { e with children := e.children.filter (· ≠ child) }
    | none => t
  let t := t.modify child fun e => { e with parent := some parent }
  t.modify parent fun e => { e with children := e.children ++ [child] }

/-! ## Walking up -/

/-- The entries met on the way up from a class, in at most `steps` steps. -/
def chain (t : ClassTable) : (steps : Nat) → String → List ClassEntry
  | 0, _ => []
  | steps + 1, name =>
    match t.find? name with
    | none => []
    | some e =>
      e :: match e.parent with
        | some parent => t.chain steps parent
        | none => []

/-- A class and its ancestors, the class first. -/
def ancestors (t : ClassTable) (name : String) : List ClassEntry := t.chain t.size name

def isSubclass (t : ClassTable) (sub sup : String) : Bool :=
  (t.ancestors sub).any (·.name == sup)

/-- The nearest field of a name, with the class that declares it. The names `this` and `super` are
those of the class itself, never inherited. -/
def lookupField? (t : ClassTable) (cls name : String) : Option (String × FieldBinding) :=
  (t.ancestors cls).findSome? fun e =>
    ((e.fields.lookup? name).filter fun b => e.name = cls || b.role = .declared).map (e.name, ·)

/-- The nearest method of a name, with the class that declares it. -/
def lookupMethod? (t : ClassTable) (cls name : String) : Option (String × MethodBinding) :=
  (t.ancestors cls).findSome? fun e => (e.methods.lookup? name).map (e.name, ·)

/-! ## Types -/

/-- The type of a name that is not an array. -/
def resolveElem? (t : ClassTable) : TypeName → Option Ty
  | .int => some .int
  | .boolean => some .boolean
  | .void => some .void
  | .named name => if t.contains name then some (.cls name) else none
  | .array _ => none

/-- The type that a type name stands for. There are no arrays of arrays and none of `void`; the
name `void` itself resolves, and who has no use for it refuses it. -/
def resolve? (t : ClassTable) (typeName : String) : Option Ty :=
  match TypeName.parse typeName with
  | .array elem =>
    ((t.resolveElem? (TypeName.parse elem)).filter (· ≠ .void)).map .array
  | simple => t.resolveElem? simple

/-- Two type names stand for the same type. Names without a meaning agree only with themselves. -/
def sameTypeName (t : ClassTable) (a b : String) : Bool :=
  match t.resolve? a, t.resolve? b with
  | some x, some y => x = y
  | _, _ => a = b

/-- The relation "a value of the first type is also one of the second". -/
def isSubtype (t : ClassTable) (sub sup : Ty) : Bool :=
  sub = sup ||
    match sub, sup with
    | .untyped, _ => true
    | _, .untyped => true
    | .null, .cls _ => true
    | .null, .array _ => true
    | .cls a, .cls b => t.isSubclass a b
    | .array _, .cls b => b = objectName
    | .array (.cls a), .array (.cls b) => t.isSubclass a b
    | _, _ => false

/-- Two methods take the same types and return the same type. -/
def sameSignature (t : ClassTable) (a b : MethodBinding) : Bool :=
  t.sameTypeName a.returnName b.returnName
    && a.params.length = b.params.length
    && (a.params.zip b.params).all fun (x, y) => t.sameTypeName x.typeName y.typeName

/-! ## The hierarchy as text -/

/-- The classes below a class in preorder, each with its depth. -/
def outline (t : ClassTable) : (levels depth : Nat) → String → List (Nat × String)
  | 0, _, _ => []
  | levels + 1, depth, name =>
    match t.find? name with
    | none => []
    | some e => (depth, name) :: e.children.flatMap (t.outline levels (depth + 1))

/-- One line per class, indented by two blanks per level. -/
def hierarchyText (t : ClassTable) : String :=
  String.join <| (t.outline (t.size + 1) 0 objectName).map fun (depth, name) =>
    String.ofList (List.replicate (2 * depth) ' ') ++ name ++ "\n"

end ClassTable

end ClassCompiler
