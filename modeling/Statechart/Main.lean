/-
# The program

Reads the environment and the file that the arguments name, prints what the command prints, and ends
with its status. All decisions are taken in `CommandLine`.
-/
import Statechart.CommandLine

namespace Statechart

namespace CommandLine

/-- The names of the variables that are read. -/
def variableNames : List String :=
  folderVariable :: Config.environmentFields.map fun (_, suffix, _) => Config.environmentPrefix ++ suffix

/-- The values of the variables that are set. -/
def readEnvironment : IO (List (String × String)) :=
  variableNames.filterMapM fun name => do return (← IO.getEnv name).map (name, ·)

/-- What is stored under a name, nothing if it cannot be read. -/
def readStored (f : FileName) : IO (Option Stored) := do
  try
    return some (.file (← IO.FS.readBinFile f.text).toList)
  catch _ => return none

end CommandLine

end Statechart

open Statechart in
/-- Carry out the command of the arguments. -/
def main (args : List String) : IO UInt32 := do
  let given ← CommandLine.readEnvironment
  let folder := FileName.ofText (← IO.currentDir).toString
  let env := fun name => given.lookup name
  let bare := CommandLine.workplace env folder fun _ => none
  let stored ← match CommandLine.fileOf? bare args with
    | some f => CommandLine.readStored f
    | none => pure none
  match CommandLine.execute env { bare with stored := fun _ => stored } args with
  | .ok outcome =>
    IO.print outcome.output
    return outcome.status.toUInt32
  | .error e =>
    IO.eprintln e.message
    return 2
