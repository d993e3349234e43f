import ClassCompiler.Command.Arguments
import ClassCompiler.Command.Compile

/-!
# Running the command

A run reads its command line, does what is asked for and ends with an exit code. `run` is the command
around any host. `runOn` is the same command around files and streams that are plain functions, where
a run is a value: what it has recorded, what it has put on each stream and what it has done to files.
-/

namespace ClassCompiler.Command

def versionText : String := "bantam 0.1.0\n"

def helpText : String :=
  String.join ([
    "Usage: bantam [OPTIONS] <FILE>...",
    "",
    "Arguments:",
    "  <FILE>...  program trees to compile, in the RON format",
    "",
    "Options:",
    "  -s, --stage <STAGE>    the compilation stage to perform [possible values: analysis, codegen]",
    "  -f, --format <FORMAT>  the output format [possible values: debug, ron, hierarchy, asm]",
    "  -o, --output <PATH>    where to write the assembly (stdout by default)",
    "      --gc               enable the garbage collector in the generated program",
    "  -h, --help             Print help",
    "  -V, --version          Print version"].map (· ++ "\n"))

/-- How a run ends. -/
structure Ending where
  code : UInt32
  /-- What was recorded on the way. -/
  diagnostics : List Diagnostic := []

/-- A compilation fails if it has recorded errors. -/
def Ending.ofDiagnostics (ds : List Diagnostic) : Ending :=
  { code := if hasErrors ds then 1 else 0, diagnostics := ds }

/-- The command. Nobody looks at whether the help could be printed. -/
def run {m : Type → Type} [Monad m] (host : Host m) (load : Loader) (arguments : List String) :
    m Ending := do
  match Request.ofArguments arguments with
  | .error f =>
    host.complain ("error: " ++ f.text ++ "\n")
    return { code := 2 }
  | .ok .help =>
    let _ ← host.print helpText
    return { code := 0 }
  | .ok .version =>
    let _ ← host.print versionText
    return { code := 0 }
  | .ok (.compile o) =>
    let (_, ds) ← (compile host load o).run []
    return Ending.ofDiagnostics ds

/-! ## Runs as values -/

/-- A text was not taken as a whole. -/
structure Break where
  /-- What was taken of it. -/
  taken : String := ""
  reason : String

/-- Files and streams whose answers do not change during a run. -/
structure Disk where
  /-- The text under a name, or why there is none. -/
  read : String → Except String String
  /-- Where stdout breaks off a text, if it does. -/
  print : String → Option Break := fun _ => none
  /-- Why a text cannot be put into a file, if it cannot. -/
  write : (path content : String) → Option String := fun _ _ => none

inductive FileAction where
  | write (path content : String)
  | remove (path : String)
deriving DecidableEq

/-- What a run leaves behind. -/
structure Traces where
  stdout : String := ""
  stderr : String := ""
  /-- What was done to files, with or without success. -/
  files : List FileAction := []

namespace Traces

def print (s : Traces) (text : String) : Traces := { s with stdout := s.stdout ++ text }

def complain (s : Traces) (text : String) : Traces := { s with stderr := s.stderr ++ text }

def act (s : Traces) (action : FileAction) : Traces := { s with files := s.files ++ [action] }

end Traces

def Disk.host (d : Disk) : Host (StateM Traces) where
  read name := return d.read name
  print text := do
    match d.print text with
    | none =>
      modify (·.print text)
      return .ok ()
    | some b =>
      modify (·.print b.taken)
      return .error b.reason
  write path content := do
    modify (·.act (.write path content))
    return (d.write path content).elim (.ok ()) .error
  remove path := modify (·.act (.remove path))
  complain text := modify (·.complain text)

/-- A run with all it has done. -/
structure Outcome extends Ending, Traces

def runOn (disk : Disk) (load : Loader) (arguments : List String) : Outcome :=
  let (ending, traces) := (run disk.host load arguments).run {}
  { toEnding := ending, toTraces := traces }

end ClassCompiler.Command
