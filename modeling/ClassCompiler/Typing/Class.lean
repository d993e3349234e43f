import ClassCompiler.Diagnostic
import ClassCompiler.Typing.Stmt

/-!
# Typing classes

Fields and methods are checked one after the other, each from an empty scope. The classes of a
program are checked in order; the check can be cancelled between two of them.
-/

namespace ClassCompiler.Typing

/-- The class that the members under check belong to. -/
structure Home where
  table : ClassTable
  cls : String
  file : Option String

/-- An overriding method has the signature of the method it overrides. -/
def overrideFaults (h : Home) (m : Method) : List Fault :=
  match h.table.find? h.cls with
  | none => []
  | some e =>
    match e.parent.bind (h.table.lookupMethod? · m.name), e.methods.peek? m.name with
    | some (definer, overridden), some own =>
      if h.table.sameSignature own overridden then []
      else [⟨.invalidOverride h.cls m.name definer, m.span⟩]
    | _, _ => []

/-- Binds the parameters of a method in the innermost frame. -/
def bindParams (h : Home) (locals : Scope Local) : List Param → Scope Local × List Fault
  | [] => (locals, [])
  | p :: ps =>
    let declared := declaredTy h.table .param p.name p.typeName
    let bound := bindLocal h.file .param p.name ⟨tyOf declared, p.span⟩ locals
    let rest := bindParams h bound.1 ps
    (rest.1, faultsOf p.span declared ++ bound.2 ++ rest.2)

/-- Checks a method. Its parameters and the outermost statements of its body share a frame. -/
def checkMethod (h : Home) (m : Method) : Method × List Fault :=
  let declared := declaredTy h.table .method m.name m.returnName
  let params := bindParams h ({} : Scope Local).enter m.params
  let body := checkStmts
    { table := h.table, cls := h.cls, file := h.file, returnTy := tyOf declared } 0 params.1 m.body
  ({ m with body := body.tree },
    faultsOf m.span declared ++ overrideFaults h m ++ params.2 ++ body.faults)

/-- Checks a field and its initial value. -/
def checkField (h : Home) (f : Field) : Field × List Fault :=
  let env : Env := { table := h.table, cls := h.cls, locals := {} }
  let declared := declaredTy h.table .field f.name f.typeName
  ({ f with init := f.init.map (annotate env) },
    faultsOf f.span declared ++ initFaults env (tyOf declared) f.init)

def checkFeature (h : Home) : Feature → Feature × List Fault
  | .field f => let r := checkField h f; (.field r.1, r.2)
  | .method m => let r := checkMethod h m; (.method r.1, r.2)

/-- Checks a class that stands at `index` in the program. A class that is not the registered
definition of its name is left as it is. -/
def checkClass (t : ClassTable) (index : Nat) (c : ClassDecl) : ClassDecl × List Diagnostic :=
  if (t.find? c.name).any (·.origin = .user index) then
    let checked := c.features.map (checkFeature { table := t, cls := c.name, file := c.file })
    ({ c with features := checked.map (·.1) },
      (checked.flatMap (·.2)).map (Fault.diagnostic c.file))
  else (c, [])

/-- A run with a limit is cancelled once that many diagnostics have been reported. -/
def cancelled (limit : Option Nat) (reported : Nat) : Bool := limit.any (· ≤ reported)

/-- What became of a check: the classes, the diagnostics, and whether it came to its end. -/
structure CheckRun where
  classes : List ClassDecl
  diagnostics : List Diagnostic
  finished : Bool

/-- Checks the classes from `index` on, after `reported` diagnostics. -/
def checkClasses (t : ClassTable) (limit : Option Nat) (reported index : Nat) :
    List ClassDecl → CheckRun
  | [] => ⟨[], [], true⟩
  | c :: cs =>
    if cancelled limit reported then ⟨c :: cs, [], false⟩
    else
      let checked := checkClass t index c
      let rest := checkClasses t limit (reported + checked.2.length) (index + 1) cs
      ⟨checked.1 :: rest.classes, checked.2 ++ rest.diagnostics, rest.finished⟩

end ClassCompiler.Typing
