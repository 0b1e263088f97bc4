import Scriptlet.CommandLine.Outcome

/-!
# The command line program

Reads the files that the command line names, and prints the outcome.
-/

namespace Scriptlet

open CommandLine

/-- Why the system did not read a file. -/
def faultOf : IO.Error → FileFault
  | .permissionDenied .. => .denied
  | .inappropriateType _ code _ => if code = 21 then .isFolder else .notFolder
  | .invalidArgument .. | .resourceExhausted .. => .nameTooLong
  | .userError _ => .notText
  | _ => .missing

/-- The text of a file, or why it cannot be read. -/
def readText (name : String) : IO (Except FileFault String) := do
  try
    .ok <$> IO.FS.readFile name
  catch e => pure (.error (faultOf e))

end Scriptlet

open Scriptlet CommandLine in
/-- Does what the command line says. -/
def main (arguments : List String) : IO UInt32 := do
  let names := ((Invocation.ofArguments? arguments).map (·.fileNames)).getD []
  let contents ← names.mapM fun name => do pure (name, ← readText name)
  let o := outcome (fun name => (contents.lookup name).getD (.error .missing)) arguments
  (← IO.getStdout).putStr o.stdout
  (← IO.getStderr).putStr o.stderr
  pure o.code.toUInt32
