import ClassCompiler.Fault

/-!
# Diagnostics

A diagnostic is what a user gets to see of a fault. It is drafted step by step and then settled; the
diagnostics of a run are kept in the order they were reported.
-/

namespace ClassCompiler

inductive Level where
  | fatal | error | warn | info
deriving DecidableEq

/-- Fatal diagnostics and errors make a run fail. -/
def Level.isError : Level → Bool
  | .fatal | .error => true
  | .warn | .info => false

/-- The part of the work a diagnostic comes from. -/
inductive Phase where
  | reading | analysis | generation
deriving DecidableEq

def Phase.text : Phase → String
  | .reading => "syntax error"
  | .analysis => "semantic error"
  | .generation => "codegen error"

/-- What lies behind a diagnostic. -/
inductive Cause where
  | fault (fault : Fault)
  | entry (fault : EntryFault)
  | output (fault : OutputFault)
  /-- The analysis was interrupted. -/
  | cancelled
  /-- A failure outside of the language, in its own words. -/
  | outside (text : String)
deriving DecidableEq

namespace Cause

def text : Cause → String
  | fault f => f.text
  | entry f => f.text
  | output f => f.text
  | cancelled => "the analysis was cancelled"
  | outside text => text

/-- The place a cause points at. Code generation has no place and points at the start. -/
def span? : Cause → Option Span
  | fault f => some f.span
  | entry f => some f.span
  | output _ => some {}
  | cancelled | outside _ => none

end Cause

/-- The words of a diagnostic, with the place they are about. -/
structure Message where
  span : Option Span := none
  text : String
deriving DecidableEq

def EntryFault.message (f : EntryFault) : Message := { span := f.span?, text := f.text }

structure Diagnostic where
  level : Level
  phase : Phase
  file : Option String
  message : Message
  cause : Option Cause
deriving DecidableEq

/-- The line a diagnostic points at. -/
def Diagnostic.line? (d : Diagnostic) : Option UInt64 := d.message.span.map Span.line

/-- A diagnostic in the making. -/
structure Draft where
  level : Level
  phase : Phase := .analysis
  file : Option String := none
  message : Option Message := none
  cause : Option Cause := none

namespace Draft

def withPhase (d : Draft) (phase : Phase) : Draft := { d with phase }

def withFile (d : Draft) (file : Option String) : Draft := { d with file }

def withMessage (d : Draft) (message : Message) : Draft := { d with message := some message }

def withCause (d : Draft) (cause : Cause) : Draft := { d with cause := some cause }

/-- Takes the cause, and also its words and place unless a message is set already. -/
def withExplainedCause (d : Draft) (cause : Cause) : Draft :=
  { d with
    cause := some cause
    message := d.message.or (some { span := cause.span?, text := cause.text }) }

/-- Settles a draft. Without a message the cause speaks for itself, without a cause the phase. -/
def settle (d : Draft) : Diagnostic :=
  { level := d.level
    phase := d.phase
    file := d.file
    message := d.message.getD { text := (d.cause.map Cause.text).getD d.phase.text }
    cause := d.cause }

end Draft

/-- The diagnostic for a fault of a file. -/
def Fault.diagnostic (file : Option String) (f : Fault) : Diagnostic :=
  (({ level := .error } : Draft).withFile file |>.withExplainedCause (.fault f)).settle

/-- The number of diagnostics that make a run fail. -/
def errorCount (ds : List Diagnostic) : Nat := ds.countP (·.level.isError)

def hasErrors (ds : List Diagnostic) : Bool := ds.any (·.level.isError)

end ClassCompiler
