import ClassCompiler.ClassTable

/-!
# Dispatch tables

The methods that can be called on an object of a class. A method has the slot of its first
declaration from the root down; the slot names the class with the last declaration.
-/

namespace ClassCompiler.Assembly

/-- A method and the class that defines it. -/
structure Slot where
  method : String
  definer : String
deriving DecidableEq

structure DispatchTable where
  slots : List Slot := []
deriving DecidableEq

namespace DispatchTable

/-- Enters a definition: it takes over the slot of its method, or a new one at the end. -/
def enter (d : DispatchTable) (s : Slot) : DispatchTable :=
  if d.slots.any (·.method = s.method) then
    ⟨d.slots.map fun old => if old.method = s.method then s else old⟩
  else ⟨d.slots ++ [s]⟩

/-- The definitions on the way from the root down to a class. -/
def definitions (t : ClassTable) (cls : String) : List Slot :=
  (t.ancestors cls).reverse.flatMap fun e =>
    e.declaredMethods.map fun method => { method, definer := e.name }

def ofClass (t : ClassTable) (cls : String) : DispatchTable :=
  (definitions t cls).foldl enter {}

def size (d : DispatchTable) : Nat := d.slots.length

def isEmpty (d : DispatchTable) : Bool := d.slots.isEmpty

/-- The slot of a method and the class that defines it. -/
def get? (d : DispatchTable) (method : String) : Option (Nat × String) :=
  match d.slots.findIdx? (·.method == method), d.slots.find? (·.method == method) with
  | some index, some s => some (index, s.definer)
  | _, _ => none

end DispatchTable

end ClassCompiler.Assembly
