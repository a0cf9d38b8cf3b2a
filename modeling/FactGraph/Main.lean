import FactGraph.CommandLine.Execute

/-!
# The program

The command line on the files of the machine. Results go to the standard output, everything else
to the standard error.
-/

namespace FactGraph

/-- Does something with the files of the machine, and says whether it succeeded. -/
def succeeds (action : IO Unit) : IO Bool := do
  try
    action
    return true
  catch _ => return false

/-- The code of the machine for reading from a directory. -/
def readsDirectory : UInt32 := 21

/-- What is found at a path. Nothing is there if the path, or a directory on the way to it, is
missing. -/
def readMachineFile (path : String) : IO FileContents := do
  try
    return .text (← IO.FS.readFile path)
  catch
    | .noFileOrDirectory .. => return .absent
    | .inappropriateType _ code _ =>
      return if code == readsDirectory then .unreadable else .absent
    | _ => return .unreadable

instance : FileStore IO where
  workingDirectory := return (← IO.currentDir).toString
  read := readMachineFile
  createDirectories path := succeeds (IO.FS.createDirAll path)
  write path contents := succeeds (IO.FS.writeFile path contents)
  move source target := succeeds (IO.FS.rename source target)

end FactGraph

open FactGraph in
/-- Carries a command line out. -/
def main (arguments : List String) : IO UInt32 := do
  let outcome : Outcome ← execute arguments
  match outcome with
  | .printed text => IO.print text
  | .failed failure => IO.eprintln ("Error: " ++ failure.message)
  | .misused => IO.eprint helpText
  return UInt32.ofNat outcome.exitCode
