import ClassCompiler.ClassTable
import ClassCompiler.Diagnostic

/-!
# Binding members

Fills the field and method tables of every class with its own declarations. The first declaration of
a name is kept. Inherited members are not copied: looking for a member walks up the hierarchy.
-/

namespace ClassCompiler.Members

/-- Where a feature is defined. -/
def location (e : ClassEntry) (c : ClassDecl) (span : Span) : Location :=
  if e.isBuiltin then .builtin else .source c.file span

def fieldBinding (e : ClassEntry) (c : ClassDecl) (f : Field) : FieldBinding where
  typeName := f.typeName
  role := .declared
  location := location e c f.span

def methodBinding (e : ClassEntry) (c : ClassDecl) (m : Method) : MethodBinding where
  returnName := m.returnName
  params := m.params.map fun p => { name := p.name, typeName := p.typeName }
  location := location e c m.span

def kind : Feature → NameKind
  | .field _ => .field
  | .method _ => .method

/-- Binds a feature, or says where its name was bound before. -/
def bindFeature (c : ClassDecl) (e : ClassEntry) : Feature → Except Problem ClassEntry
  | .field f =>
    if isReserved f.name then .error (.reservedName .field f.name)
    else match e.fields.add? f.name (fieldBinding e c f) with
      | some fields => .ok { e with fields, members := e.members ++ [.field f.name] }
      | none => .error (.duplicateName .field f.name
          ((e.fields.peek? f.name).elim .builtin (·.location)))
  | .method m =>
    if isReserved m.name then .error (.reservedName .method m.name)
    else match e.methods.add? m.name (methodBinding e c m) with
      | some methods => .ok { e with methods, members := e.members ++ [.method m.name] }
      | none => .error (.duplicateName .method m.name
          ((e.methods.peek? m.name).elim .builtin (·.location)))

def bindFeatures (c : ClassDecl) (e : ClassEntry) : List Feature → ClassEntry × List Fault
  | [] => (e, [])
  | f :: rest =>
    match bindFeature c e f with
    | .ok e' => bindFeatures c e' rest
    | .error problem =>
      let r := bindFeatures c e rest
      (r.1, ⟨problem, f.span⟩ :: r.2)

/-- The frame that a class starts with: `this` is the class and `super` its parent. -/
def pseudoFrame (e : ClassEntry) : Frame FieldBinding :=
  [("this", { typeName := e.name, role := .this, location := e.location }),
    ("super", { typeName := e.parent.getD "", role := .super, location := e.location })]

/-- Opens a frame in both tables of a class. -/
def openFrames (e : ClassEntry) : ClassEntry :=
  { e with
    fields := { e.fields with inner := pseudoFrame e :: e.fields.inner }
    methods := e.methods.enter }

/-- Binds the features of a class in fresh frames. -/
def bindClass (c : ClassDecl) (e : ClassEntry) : ClassEntry × List Diagnostic :=
  let r := bindFeatures c (openFrames e) c.features
  (r.1, r.2.map (Fault.diagnostic c.file))

/-- Binds an entry to the declaration at its origin, if there is one. -/
def bindEntry (classes : List ClassDecl) (e : ClassEntry) : ClassEntry × List Diagnostic :=
  match e.origin.decl? classes with
  | some c => bindClass c e
  | none => (e, [])

/-- Binds the members of every class of the table. -/
def bind (classes : List ClassDecl) (t : ClassTable) : ClassTable × List Diagnostic :=
  let bound := t.entries.map (bindEntry classes)
  (⟨bound.map (·.1)⟩, bound.flatMap (·.2))

end ClassCompiler.Members
