import CSharpFront.CommandLine.Run
/-!
The program: it runs the command line on the files of the machine.
-/

open CSharpFront.CommandLine

/-- Reads a file of the machine. -/
def readFile : Reader IO := fun path => do
  if path.toList.contains '\x00' then return .error .nulInPath
  try
    return .ok (← IO.FS.readFile path)
  catch
    | .noFileOrDirectory .. => return .error .notFound
    | .inappropriateType .. => return .error .isDirectory
    | e => return .error (.other (toString e))

def main (arguments : List String) : IO UInt32 := do
  let outcome ← run readFile arguments
  (← IO.getStdout).putStr outcome.stdout
  (← IO.getStderr).putStr outcome.stderr
  return outcome.exit.toUInt32
