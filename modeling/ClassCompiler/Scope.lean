/-!
# Scopes

A scope is a stack of frames that bind names. The base frame belongs to the scope itself and can
never be left, so every look-up has somewhere to end. Bindings go to the innermost frame only, and a
frame never replaces a binding. Frames keep their bindings in the order they were made.
-/

namespace ClassCompiler

/-- The bindings of one level, oldest first. -/
abbrev Frame (α : Type) := List (String × α)

/-- A stack of frames: `inner` holds those above the base, innermost first. -/
structure Scope (α : Type) where
  base : Frame α := []
  inner : List (Frame α) := []
deriving DecidableEq

namespace Scope

variable {α : Type}

instance : Inhabited (Scope α) := ⟨{}⟩

/-- The frame that new bindings go to. -/
def innermost (s : Scope α) : Frame α := s.inner.headD s.base

/-- All frames, the base frame first. -/
def frames (s : Scope α) : List (Frame α) := s.base :: s.inner.reverse

/-- The number of the innermost frame; the base frame has number 0. -/
def level (s : Scope α) : Nat := s.inner.length

def enter (s : Scope α) : Scope α := { s with inner := [] :: s.inner }

/-- Leaves the innermost frame. At the base frame nothing happens. -/
def exit (s : Scope α) : Scope α := { s with inner := s.inner.tail }

/-- The frame that `exit` gives up; none at the base frame. -/
def exited? (s : Scope α) : Option (Frame α) := s.inner.head?

/-- Runs a computation inside a fresh frame and leaves one frame afterwards. -/
def within {β : Type} (s : Scope α) (f : Scope α → β × Scope α) : β × Scope α :=
  let r := f s.enter
  (r.1, r.2.exit)

/-- The binding of a name in the innermost frame. -/
def peek? (s : Scope α) (name : String) : Option α := s.innermost.lookup name

/-- Binds a name in the innermost frame; refused if that frame has the name already. -/
def add? (s : Scope α) (name : String) (value : α) : Option (Scope α) :=
  if (s.peek? name).isSome then none
  else match s.inner with
    | [] => some { s with base := s.base ++ [(name, value)] }
    | frame :: rest => some { s with inner := (frame ++ [(name, value)]) :: rest }

/-- Looks for a name from the innermost frame outwards; gives the number of the frame too. -/
def lookupLevel? (s : Scope α) (name : String) : Option (Nat × α) :=
  search s.inner
where
  search : List (Frame α) → Option (Nat × α)
    | [] => (s.base.lookup name).map (0, ·)
    | frame :: rest =>
      match frame.lookup name with
      | some value => some (rest.length + 1, value)
      | none => search rest

/-- Looks for a name from the innermost frame outwards. -/
def lookup? (s : Scope α) (name : String) : Option α := (s.lookupLevel? name).map (·.2)

/-- All bindings, the base frame first, oldest first within a frame. -/
def toList (s : Scope α) : List (String × α) := s.frames.flatten

/-- The number of bindings in all frames. -/
def size (s : Scope α) : Nat := s.toList.length

def isEmpty (s : Scope α) : Bool := s.frames.all (·.isEmpty)

end Scope

end ClassCompiler
