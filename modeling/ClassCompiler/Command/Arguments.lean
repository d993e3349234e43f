import ClassCompiler.Command.Options

/-!
# Reading a command line

Arguments are read from left to right. The values of an argument are looked at only when the next
argument starts or the line ends; a name that is not known stops the reading at once.
-/

namespace ClassCompiler.Command

/-- Why reading ends before the end of the line. -/
inductive Halt where
  | help
  | version
  | misuse (fault : UsageFault)
deriving DecidableEq

/-- What has been read so far. -/
structure Reading where
  stage : Option Stage := none
  format : Option Format := none
  output : Option String := none
  gc : Bool := false
  files : List String := []
  /-- The argument that has started last, with its values up to now. -/
  pending : Option (Argument × List String) := none

namespace Reading

/-- Fills an argument that may be given only once. An empty value is no value. -/
def fill {α : Type} (a : Argument) (old : Option α) (read : String → Option α) (value : String)
    (store : α → Reading) : Except Halt Reading :=
  if old.isSome then .error (.misuse (.repeated a))
  else if value.isEmpty then .error (.misuse (.missingValue a))
  else match read value with
    | none => .error (.misuse (.invalidValue a value))
    | some v => .ok (store v)

/-- Takes an argument with all its values. -/
def take (r : Reading) : Argument → List String → Except Halt Reading
  | .help, _ => .error .help
  | .version, _ => .error .version
  | .gc, _ => if r.gc then .error (.misuse (.repeated .gc)) else .ok { r with gc := true }
  | .files, names =>
    if names.any String.isEmpty then .error (.misuse (.missingValue .files))
    else .ok { r with files := r.files ++ names }
  | .stage, v :: _ => fill .stage r.stage Stage.ofText? v fun s => { r with stage := some s }
  | .format, v :: _ => fill .format r.format Format.ofText? v fun f => { r with format := some f }
  | .output, v :: _ => fill .output r.output some v fun p => { r with output := some p }
  | a, [] => .error (.misuse (.missingValue a))

/-- Takes the pending argument. -/
def settle (r : Reading) : Except Halt Reading :=
  match r.pending with
  | none => .ok r
  | some (a, values) => take { r with pending := none } a values

/-- Starts a named argument. A value attached to it is all it gets. -/
def start (r : Reading) (a : Argument) (attached : Option String) : Except Halt Reading :=
  match attached, a.takesValue with
  | some v, false => .error (.misuse (.unexpectedValue a v))
  | some v, true => r.settle.bind fun r => r.take a [v]
  | none, false => r.settle.bind fun r => r.take a []
  | none, true => r.settle.map fun r => { r with pending := some (a, []) }

/-- A file name. -/
def addFile (r : Reading) (name : String) : Except Halt Reading :=
  match r.pending with
  | some (.files, names) => .ok { r with pending := some (.files, names ++ [name]) }
  | _ => r.settle.map fun r => { r with pending := some (.files, [name]) }

/-- An argument without dashes: the value of the pending argument if that needs one. -/
def addPlain (r : Reading) (text : String) : Except Halt Reading :=
  match r.pending with
  | some (a, []) => .ok { r with pending := some (a, [text]) }
  | _ => r.addFile text

/-- An argument with two dashes, without them. -/
def addLong (r : Reading) (text : List Char) : Except Halt Reading :=
  let name := String.ofList (text.takeWhile (· != '='))
  match Argument.ofLong? name, text.dropWhile (· != '=') with
  | none, _ => .error (.misuse (.unexpectedArgument ("--" ++ name)))
  | some a, [] => r.start a none
  | some a, _ :: value => r.start a (some (String.ofList value))

/-- An argument with one dash: a letter and what follows it. -/
def addShort (r : Reading) (letter : Char) (rest : List Char) : Except Halt Reading :=
  match Argument.ofShort? letter with
  | none => .error (.misuse (.unexpectedArgument ("-" ++ String.singleton letter)))
  | some a =>
    if !a.takesValue then r.start a none
    else match rest with
      | [] => r.start a none
      | '=' :: value => r.start a (some (String.ofList value))
      | value => r.start a (some (String.ofList value))

def add (r : Reading) (text : String) : Except Halt Reading :=
  match text.toList with
  | '-' :: '-' :: rest => r.addLong rest
  | '-' :: letter :: rest => r.addShort letter rest
  | _ => r.addPlain text

/-- Reads the arguments that are left. After two dashes on their own there are only files. -/
def readAll (r : Reading) (onlyFiles : Bool) : List String → Except Halt Reading
  | [] => r.settle
  | text :: rest =>
    if onlyFiles then
      match r.addFile text with
      | .error h => .error h
      | .ok r => readAll r true rest
    else if text = "--" then readAll r true rest
    else match r.add text with
      | .error h => .error h
      | .ok r => readAll r false rest

/-- The options that have been read. -/
def options (r : Reading) : Except UsageFault Options :=
  if r.files.isEmpty then .error .noFiles
  else match outputOf? (stageOf r.stage r.format) r.format with
    | none => .error .wrongFormat
    | some output =>
      if r.output.isSome && output != .assembly then .error .pathWithoutAssembly
      else .ok { files := r.files, output, path := r.output, gc := r.gc }

end Reading

/-- What a command line asks for. -/
def Request.ofArguments (arguments : List String) : Except UsageFault Request :=
  match Reading.readAll {} false arguments with
  | .error .help => .ok .help
  | .error .version => .ok .version
  | .error (.misuse f) => .error f
  | .ok r => r.options.map .compile

end ClassCompiler.Command
