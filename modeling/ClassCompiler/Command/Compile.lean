import ClassCompiler.Analysis
import ClassCompiler.Assembly.Render
import ClassCompiler.Command.Options
import ClassCompiler.Command.Report

/-!
# Compiling files

All files are read first; their classes form one program. Nothing comes out of a program with
errors. What is around the command, its files and streams, is asked through a `Host`, in any monad.
-/

namespace ClassCompiler.Command

/-- What the command asks of what is around it. A failure is answered in its own words. -/
structure Host (m : Type → Type) where
  /-- The text of a file. -/
  read : String → m (Except String String)
  /-- Puts a text on stdout. -/
  print : String → m (Except String Unit)
  /-- Puts a text into the file of a path. -/
  write : (path content : String) → m (Except String Unit)
  /-- Removes the file of a path, if that is possible. -/
  remove : String → m Unit
  /-- Puts a text on stderr. -/
  complain : String → m Unit

/-- A part of a compilation, with the diagnostics that have been recorded so far. -/
abbrev Pass (m : Type → Type) := StateT (List Diagnostic) m

/-- Reads programs from texts. -/
abbrev Loader := String → Except LoadFault Program

/-- The classes of some programs, as one program. -/
def merged (ps : List Program) : Program := { classes := ps.flatMap Program.classes }

/-- The text that shows the results of an analysis. -/
def viewText (p : Program) (t : ClassTable) : View → Except DumpFault String
  | .debug => p.dump .debug
  | .ron => p.dump .ron
  | .hierarchy => .ok t.hierarchyText

section

variable {m : Type → Type} [Monad m]

/-- Goes on only if no errors have been recorded. -/
def unlessErrors (x : Pass m Unit) : Pass m Unit := do
  if hasErrors (← get) then return () else x

variable (host : Host m) (load : Loader)

def record (d : Diagnostic) : Pass m Unit := do
  modify (· ++ [d])
  host.complain (reportText d)

/-- Records why something has failed, if it has. -/
def orRecord (complaint : String → Diagnostic) (x : Pass m (Except String Unit)) : Pass m Unit := do
  match ← x with
  | .error reason => record host (complaint reason)
  | .ok () => return ()

/-- The program in a file. Classes that name no file are of this one. -/
def loadFile (name : String) : Pass m (Option Program) := do
  match ← host.read name with
  | .error reason =>
    record host (unreadable name reason)
    return none
  | .ok text =>
    match load text with
    | .error f =>
      record host (malformed name f)
      return none
    | .ok p =>
      return some
        { p with classes := p.classes.map fun c => { c with file := some (c.file.getD name) } }

/-- The programs in those files that can be loaded. -/
def loadFiles : List String → Pass m (List Program)
  | [] => return []
  | name :: names => do
    let p ← loadFile host load name
    let ps ← loadFiles names
    return p.toList ++ ps

/-- Prints the results of an analysis. -/
def dump (p : Program) (t : ClassTable) (view : View) : Pass m Unit :=
  match viewText p t view with
  | .error f => record host (notDumped f.text)
  | .ok text => orRecord host notDumped (host.print text)

/-- Prints an assembly, or puts it into a file. A file that could not be written as a whole is no
program, and is removed. -/
def deliver (text : String) : Option String → Pass m (Except String Unit)
  | none => host.print text
  | some path => do
    match ← host.write path text with
    | .error reason =>
      host.remove path
      return .error reason
    | .ok () => return .ok ()

/-- Puts out what was asked for of a program without errors. -/
def emit (o : Options) (p : Program) (t : ClassTable) : Pass m Unit :=
  match o.output with
  | .analysis view => dump host p t view
  | .assembly =>
    match Assembly.render t p o.gc false with
    | .error f => record host (notGenerated f)
    | .ok text => orRecord host notWritten (deliver host text o.path)

def compile (o : Options) : Pass m Unit := do
  let programs ← loadFiles host load o.files
  unlessErrors do
    let analysis := Analysis.run none (merged programs)
    analysis.diagnostics.forM (record host)
    match analysis.table with
    | none => record host interrupted
    | some t => unlessErrors (emit host o analysis.program t)

end

end ClassCompiler.Command
