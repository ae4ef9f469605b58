import SafetyLint.Disk

/-!
# Where the configuration is

A configuration may be named explicitly.  Otherwise it is the one of the project: the nearest one in
the directory of the checked files and those above it, up to the root of the repository.  Otherwise
it is the one of the user, and in the end there are the defaults.

The lookup only asks whether there are files and directories; whoever answers is a `Probe`.
-/

namespace SafetyLint
namespace Config

/-- Questions about paths. -/
structure Probe where
  isFile : String → Bool
  isDir : String → Bool
  exists? : String → Bool
  /-- The absolute path that a path leads to. -/
  canonical? : String → Option String

/-- The answers that a disk gives. -/
def Probe.ofDisk (d : Disk) : Probe := ⟨d.isFile, d.isDir, d.exists?, d.canonical?⟩

/-- Where a configuration was found. -/
inductive ConfigSource where
  | explicit (path : String)
  | project (path : String)
  | user (path : String)
  | defaults
  deriving DecidableEq, Repr

/-- The file to read. -/
def ConfigSource.path? : ConfigSource → Option String
  | explicit path => some path
  | project path => some path
  | user path => some path
  | defaults => none

/-- The names of a project's configuration, the preferred one first. -/
def projectNames : List String := ["powerten.toml", ".powerten.toml"]

/-- The name of a user's configuration. -/
def userName : String := "config.toml"

/-- The entry that marks the root of a repository. -/
def repositoryMark : String := ".git"

/-- A directory that was named explicitly and has no configuration. -/
structure NoConfigIn where
  dir : String
  deriving DecidableEq, Repr

def NoConfigIn.message (e : NoConfigIn) : String :=
  "No " ++ String.intercalate " or " projectNames ++ " in " ++ e.dir

namespace Probe

/-- The configuration of a project in a directory. -/
def configIn? (p : Probe) (dir : String) : Option String :=
  (projectNames.map (Path.join dir)).find? p.isFile

/-- The directory is the root of a repository. -/
def isRepository (p : Probe) (dir : String) : Bool := p.exists? (Path.join dir repositoryMark)

/-- The configuration of the first directory that has one, if no directory before that is the root
of a repository. -/
def nearest? (p : Probe) : List String → Option String
  | [] => none
  | dir :: rest =>
    match p.configIn? dir with
    | some found => some found
    | none => if p.isRepository dir then none else p.nearest? rest

/-- The directory in which a search for the configuration of a target starts. -/
def searchStart (p : Probe) (target : String) : String :=
  let dir := if p.isFile target then Path.parentOrHere target else target
  let dir := if dir.isEmpty then "." else dir
  (p.canonical? dir).getD dir

/-- The configuration of a user, who may have a directory for it. -/
def userConfig? (p : Probe) (dir : Option String) : Option String :=
  (dir.map fun d => Path.join d userName).filter p.isFile

/-- Finds the configuration for a target. -/
def lookup (p : Probe) (target : String) (explicit : Option String) (userDir : Option String) :
    Except NoConfigIn ConfigSource :=
  match explicit with
  | some path =>
    if p.isDir path then
      match p.configIn? path with
      | some found => .ok (.explicit found)
      | none => .error ⟨path⟩
    else .ok (.explicit path)
  | none =>
    match p.nearest? (Path.ancestors (p.searchStart target)) with
    | some found => .ok (.project found)
    | none =>
      match p.userConfig? userDir with
      | some found => .ok (.user found)
      | none => .ok .defaults

end Probe

end Config
end SafetyLint
