import ClassCompiler.Text.ControlSequence

/-!
# Command line options

What a command line asks for. The stage and the format decide together what comes out; a format of
the analysis implies that stage.
-/

namespace ClassCompiler.Command

inductive Stage where
  | analysis | codegen
deriving DecidableEq

def Stage.ofText? : String → Option Stage
  | "analysis" => some .analysis
  | "codegen" => some .codegen
  | _ => none

inductive Format where
  | debug | ron | hierarchy | asm
deriving DecidableEq

def Format.ofText? : String → Option Format
  | "debug" => some .debug
  | "ron" => some .ron
  | "hierarchy" => some .hierarchy
  | "asm" => some .asm
  | _ => none

/-- What is shown of an analysis. -/
inductive View where
  | debug | ron | hierarchy
deriving DecidableEq

inductive Output where
  | analysis (view : View)
  | assembly
deriving DecidableEq

structure Options where
  files : List String
  output : Output := .assembly
  /-- Where the assembly goes, if not to standard output. -/
  path : Option String := none
  gc : Bool := false
deriving DecidableEq

/-- What a command line asks for. -/
inductive Request where
  | help
  | version
  | compile (options : Options)
deriving DecidableEq

/-- The arguments that can be named or filled. -/
inductive Argument where
  | files | stage | format | output | gc | help | version
deriving DecidableEq

namespace Argument

/-- An argument as messages show it. -/
def text : Argument → String
  | files => "<FILE>..."
  | stage => "--stage <STAGE>"
  | format => "--format <FORMAT>"
  | output => "--output <PATH>"
  | gc => "--gc"
  | help => "--help"
  | version => "--version"

def takesValue : Argument → Bool
  | stage | format | output => true
  | files | gc | help | version => false

def ofLong? : String → Option Argument
  | "stage" => some stage
  | "format" => some format
  | "output" => some output
  | "gc" => some gc
  | "help" => some help
  | "version" => some version
  | _ => none

def ofShort? : Char → Option Argument
  | 's' => some stage
  | 'f' => some format
  | 'o' => some output
  | 'h' => some help
  | 'V' => some version
  | _ => none

end Argument

/-- Why a command line cannot be followed. -/
inductive UsageFault where
  | noFiles
  | unexpectedArgument (shown : String)
  | missingValue (argument : Argument)
  | invalidValue (argument : Argument) (value : String)
  | repeated (argument : Argument)
  | unexpectedValue (argument : Argument) (value : String)
  /-- The format is not one of the chosen stage. -/
  | wrongFormat
  /-- There is no assembly to write. -/
  | pathWithoutAssembly
deriving DecidableEq

/-- What is wrong, in words. Arguments are shown without their control sequences. -/
def UsageFault.text : UsageFault → String
  | noFiles => "the following required arguments were not provided:"
  | unexpectedArgument shown => "unexpected argument '" ++ Text.withoutControls shown ++ "' found"
  | missingValue a => "a value is required for '" ++ a.text ++ "' but none was supplied"
  | invalidValue a value =>
    "invalid value '" ++ Text.withoutControls value ++ "' for '" ++ a.text ++ "'"
  | repeated a => "the argument '" ++ a.text ++ "' cannot be used multiple times"
  | unexpectedValue a value =>
    "unexpected value '" ++ Text.withoutControls value ++ "' for '" ++ a.text
      ++ "' found; no more were expected"
  | wrongFormat => "this format cannot be used for the current compilation stage"
  | pathWithoutAssembly => "--output can only be used with the codegen stage"

/-- The stage in force: the chosen one, or the one that the format implies. -/
def stageOf : Option Stage → Option Format → Stage
  | some s, _ => s
  | none, some .debug | none, some .ron | none, some .hierarchy => .analysis
  | none, _ => .codegen

/-- The output of a stage in a format, if the stage has that format. -/
def outputOf? : Stage → Option Format → Option Output
  | .analysis, none | .analysis, some .hierarchy => some (.analysis .hierarchy)
  | .analysis, some .debug => some (.analysis .debug)
  | .analysis, some .ron => some (.analysis .ron)
  | .analysis, some .asm => none
  | .codegen, none | .codegen, some .asm => some .assembly
  | .codegen, _ => none

end ClassCompiler.Command
