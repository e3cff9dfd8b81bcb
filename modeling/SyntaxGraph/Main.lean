import SyntaxGraph.CommandLine.Run

/-!
# The program

The command line on the files of the machine.
-/

namespace SyntaxGraph

/-- The reason why a file cannot be read or written. -/
def reason : IO.Error → String
  | .noFileOrDirectory .. => "No such file or directory (os error 2)"
  | e => toString e

/-- The files of the machine. -/
def machineFiles : CommandLine.Files IO where
  read path := do
    match ← (IO.FS.readFile path).toBaseIO with
    | .ok text => return .ok text
    | .error e => return .error (reason e)
  write path text := do
    match ← (IO.FS.writeFile path text).toBaseIO with
    | .ok () => return .ok ()
    | .error e => return .error (reason e)

end SyntaxGraph

/-- Runs the program on its arguments. -/
def main (args : List String) : IO UInt32 := do
  let outcome ← SyntaxGraph.CommandLine.run SyntaxGraph.machineFiles args
  IO.print outcome.stdout
  IO.eprint outcome.stderr
  return outcome.exit
