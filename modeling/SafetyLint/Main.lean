import SafetyLint.Command.Run
import SafetyLint.Command.Surroundings

/-!
# The program

Reads what a run looks at, and carries out what the run does.
-/

namespace SafetyLint
namespace Program

/-- The variables that a run looks at. -/
def watchedVariables : List String :=
  ["HOME", "XDG_CONFIG_HOME", "GIT_CONFIG_GLOBAL", "GIT_CONFIG_SYSTEM", "POWERTEN_CONFIG",
    "POWERTEN_CONFIG_DIR"]

def readEnvironment : IO Ignore.Environment :=
  watchedVariables.filterMapM fun name => do
    return (← IO.getEnv name).map fun value => (name, value)

/-- What stands at a path, directories with all that is in them. -/
partial def readEntry (path : String) : IO (Option Entry) := do
  let target := (← IO.currentDir) / path
  if ← target.isDir then
    let entries ← (← target.readDir).toList.filterMapM fun e => do
      return (← readEntry (Path.join path e.fileName)).map fun found => (e.fileName, found)
    return some (.dir entries)
  else if ← target.pathExists then
    try return some (.file (← IO.FS.readFile target))
    catch _ => return none
  else return none

/-- The disk with what stands at some paths. -/
def addPaths (disk : Disk) (paths : List String) : IO Disk :=
  paths.foldlM
    (fun disk path => do
      match ← readEntry path with
      | some e => return { disk with root := e.put (Disk.placeOf disk.current path) disk.root }
      | none => return disk)
    disk

/-- The disk that a command line needs. -/
def readDisk (env : Ignore.Environment) (args : List String) : IO Disk := do
  let current := Disk.placeOf [] (← IO.currentDir).toString
  let disk : Disk := ⟨Entry.put (.dir []) current (.dir []), current⟩
  match Command.Invocation.parse env args with
  | .error _ => return disk
  | .ok i =>
    let disk ← addPaths disk (i.paths current env)
    addPaths disk (i.laterPaths disk env)

/-- Carries out what a run does. -/
def carryOut (o : Command.Outcome) : IO UInt32 := do
  for (path, text) in o.writes do
    IO.FS.writeFile path text
  IO.print o.output
  if let some message := o.failure then
    IO.eprintln ("Error: " ++ message)
  return o.exit.toUInt32

end Program
end SafetyLint

def main (args : List String) : IO UInt32 := do
  let env ← SafetyLint.Program.readEnvironment
  let disk ← SafetyLint.Program.readDisk env args
  SafetyLint.Program.carryOut (SafetyLint.Command.run disk env args)
