import AsmLayout.Command.Arguments

/-!
# The program

Reads the files that the arguments name, runs the command and prints what it leaves.
-/

open AsmLayout

/-- The text of a file, if it can be read. -/
def readText (path : String) : IO (Option String) := do
  try return some (← IO.FS.readFile path)
  catch _ => return none

def main (args : List String) : IO UInt32 := do
  let paths := match Arguments.parse args with
    | .ok invocation => invocation.paths
    | .error _ => []
  let mut texts : List (String × Option String) := []
  for path in paths do
    texts := (path, ← readText path) :: texts
  let outcome := Outcome.ofArguments (fun path => (texts.lookup path).join) args
  IO.print outcome.output
  if let some complaint := outcome.complaint then
    IO.eprintln complaint
  return outcome.status.toUInt32
