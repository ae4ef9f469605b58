import SafetyLint.Command.Check

/-!
# What a run looks at

A run sees the disk as a value.  These are the paths whose entries the value has to hold, so that
nothing that the run asks for is missing.
-/

namespace SafetyLint
namespace Command

open Config Ignore

/-- The names that are looked for in every directory above a target. -/
def neighbourNames : List String :=
  projectNames ++ repositoryMarks ++ [".ignore", ".gitignore"]

/-- The paths of such names around a target. -/
def neighbourPaths (current : List String) (target : String) : List String :=
  let place := Disk.placeOf current target
  (List.range (place.length + 1)).flatMap fun n =>
    neighbourNames.map fun name => Disk.pathOf (place.take n ++ [name])

/-- The files of a user that count in every run. -/
def userPaths (env : Environment) : List String :=
  Path.join (userDir env) userName :: configFiles env ++ [usualFile env]

/-- The paths that an invocation looks at. -/
def Invocation.paths (i : Invocation) (current : List String) (env : Environment) : List String :=
  match i.action with
  | .check options =>
    options.path :: neighbourPaths current options.path ++ i.config.toList ++ userPaths env
  | .listRules => []
  | .init _ => projectNames

/-- The paths that only become known with the files that were found: the rules for all repositories
and the texts of the dumps. -/
def Invocation.laterPaths (i : Invocation) (disk : Disk) (env : Environment) : List String :=
  match i.action with
  | .check options =>
    let section? : Except CheckError AnalyzerSection := do
      let source ←
        ((Probe.ofDisk disk).lookup options.path i.config (some (userDir env))).mapError .noConfig
      return (← loadConfig disk source).analyzer
    let dumps := (section?.bind fun s => findDumps disk env s options).toOption.getD []
    let files := dumps.filterMap fun dump =>
      ((Format.loadDump disk dump).toOption.filter fun f => f.text.isNone).map
        (Format.textPath dump)
    globalFile disk env :: files
  | _ => []

end Command
end SafetyLint
