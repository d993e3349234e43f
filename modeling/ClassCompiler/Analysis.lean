import ClassCompiler.Hierarchy
import ClassCompiler.Members
import ClassCompiler.Typing.Class

/-!
# Analysis of a program

The phases in order: build the hierarchy, bind the members, check the classes, check the entry
point. A run can be given a limit: once that many diagnostics have been reported it is cancelled
before the next phase or class, and no class table comes out of it.
-/

namespace ClassCompiler

namespace EntryPoint

/-- What is wrong with the entry point. An inherited method counts. -/
def fault? (t : ClassTable) : Option EntryFault :=
  match t.find? mainClass with
  | none => some .noMainClass
  | some e =>
    match t.lookupMethod? mainClass mainMethod with
    | none => some (.noMainMethod e.location)
    | some (_, m) =>
      if m.returnName = "void" ∧ m.params = [] then none
      else some (.badSignature m.location m.returnName m.params.length)

/-- Nothing can be generated without the class; other faults are errors like any. -/
def level : EntryFault → Level
  | .noMainClass => .fatal
  | _ => .error

def diagnostic (f : EntryFault) : Diagnostic :=
  (({ level := level f } : Draft).withFile f.file? |>.withMessage f.message
    |>.withCause (.entry f)).settle

def check (t : ClassTable) : List Diagnostic := (fault? t).toList.map diagnostic

end EntryPoint

/-- What became of an analysis. The table is missing if the run was cancelled. -/
structure Analysis where
  program : Program
  table : Option ClassTable
  diagnostics : List Diagnostic

namespace Analysis

open Typing (cancelled checkClasses)

def run (limit : Option Nat) (p : Program) : Analysis :=
  if cancelled limit 0 then ⟨p, none, []⟩
  else
    let built := Hierarchy.build p.classes
    if cancelled limit built.2.length then ⟨p, none, built.2⟩
    else
      let bound := Members.bind p.classes built.1
      let reported := built.2 ++ bound.2
      if cancelled limit reported.length then ⟨p, none, reported⟩
      else
        let checked := checkClasses bound.1 limit reported.length 0 p.classes
        let reported := reported ++ checked.diagnostics
        let p := { p with classes := checked.classes }
        if !checked.finished || cancelled limit reported.length then ⟨p, none, reported⟩
        else ⟨p, some bound.1, reported ++ EntryPoint.check bound.1⟩

end Analysis

end ClassCompiler
