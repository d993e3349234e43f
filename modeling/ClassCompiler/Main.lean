import ClassCompiler.Command.Run

/-!
# The command on a real system
-/

namespace ClassCompiler.Command

/-- Tries to do something; a failure is answered in its own words. -/
def attempt {α : Type} (x : IO α) : IO (Except String α) := do
  try
    return .ok (← x)
  catch e =>
    return .error (toString e)

/-- The files and streams of the system. -/
def systemHost : Host IO where
  read name := attempt (IO.FS.readFile name)
  print text := attempt do
    IO.print text
    (← IO.getStdout).flush
  write path content := attempt (IO.FS.writeFile path content)
  remove path := do
    let _ ← attempt (IO.FS.removeFile path)
  complain text := IO.eprint text

end ClassCompiler.Command

open ClassCompiler ClassCompiler.Command in
def main (arguments : List String) : IO UInt32 := do
  return (← run systemHost Program.load arguments).code
