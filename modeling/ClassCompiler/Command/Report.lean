import ClassCompiler.Diagnostic
import ClassCompiler.Syntax.Text

/-!
# Reports of the command

The diagnostics that the command itself records, and how a diagnostic is printed.
-/

namespace ClassCompiler.Command

/-- A diagnostic of the command, with the failure behind it in its own words. -/
def failure (level : Level) (phase : Phase) (text reason : String) : Diagnostic :=
  (({ level } : Draft).withPhase phase |>.withMessage { text } |>.withCause (.outside reason)).settle

def unreadable (name reason : String) : Diagnostic :=
  failure .error .analysis ("could not load file " ++ name) reason

/-- A file without a program in it. The report points at the place where reading came to an end. -/
def malformed (name : String) (f : LoadFault) : Diagnostic :=
  (({ level := .error } : Draft).withPhase .reading |>.withFile (some name)
    |>.withMessage { span := some f.span, text := "malformed program tree: " ++ f.code }
    |>.withCause (.outside f.text)).settle

def notDumped (reason : String) : Diagnostic :=
  failure .error .analysis "could not dump the analysis results to stdout" reason

def notWritten (reason : String) : Diagnostic :=
  failure .fatal .generation "could not write the assembly" reason

/-- The analysis came to no end. -/
def interrupted : Diagnostic :=
  (({ level := .fatal } : Draft).withMessage { text := Cause.cancelled.text }
    |>.withCause .cancelled).settle

/-- There is no assembly because of a fault. -/
def notGenerated (f : OutputFault) : Diagnostic :=
  (({ level := .fatal } : Draft).withPhase .generation |>.withExplainedCause (.output f)).settle

/-- The level of a diagnostic, padded to one width. -/
def levelTag : Level → String
  | .fatal => "FATAL"
  | .error => "ERROR"
  | .warn => "WARN "
  | .info => "INFO "

/-- The file and the place of a diagnostic, as far as they are known. -/
def placeText (file : Option String) (span : Option Span) : String :=
  match file, span with
  | none, none => ""
  | some f, none => f ++ " "
  | none, some s => s.first.text ++ " "
  | some f, some s => f ++ ":" ++ s.first.text ++ " "

/-- A diagnostic as it is printed. -/
def reportText (d : Diagnostic) : String :=
  levelTag d.level ++ " " ++ placeText d.file d.message.span ++ d.message.text ++ "\n"

end ClassCompiler.Command
