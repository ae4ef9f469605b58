import SafetyLint.Path

/-!
# Directories as values

The part of a file system that a run can see: a tree of directories and files, and the directory in
which the run takes place.  Paths are resolved part by part, and every part but the last has to lead
to a directory.
-/

namespace SafetyLint

/-- A file or a directory. -/
inductive Entry where
  | file (text : String)
  | dir (entries : List (String × Entry))

namespace Entry

def isDir : Entry → Bool
  | dir _ => true
  | file _ => false

/-- The entry of a directory with this name. -/
def child? (e : Entry) (name : String) : Option Entry :=
  match e with
  | dir entries => entries.lookup name
  | file _ => none

/-- The entry at the end of a path of names. -/
def descend? (e : Entry) : List String → Option Entry
  | [] => some e
  | name :: rest =>
    match e.child? name with
    | some c => c.descend? rest
    | none => none

/-- The entries of a directory; a file has none. -/
def entries : Entry → List (String × Entry)
  | dir es => es
  | file _ => []

/-- Replaces the entry with this name, or adds one. -/
def setChild (name : String) (e : Entry) : List (String × Entry) → List (String × Entry)
  | [] => [(name, e)]
  | (n, old) :: rest => if n = name then (n, e) :: rest else (n, old) :: setChild name e rest

/-- Puts an entry at the end of a path of names, and makes the directories on the way.  An empty
directory leaves a directory that is already there as it is. -/
def put (e : Entry) : List String → Entry → Entry
  | [], old =>
    match e, old with
    | dir [], dir es => dir es
    | _, _ => e
  | name :: rest, old =>
    dir (setChild name (put e rest ((old.entries.lookup name).getD (dir []))) old.entries)

end Entry

/-- Why a file cannot be read. -/
inductive DiskError where
  | notFound
  | notADirectory
  | isADirectory
  deriving DecidableEq, Repr

/-- What a run can see. -/
structure Disk where
  root : Entry
  /-- The names on the way from the root to the current directory. -/
  current : List String

namespace Disk

/-- One part of a path, from a place that has been reached. -/
def step (d : Disk) (place : List String) (part : List Char) : Except DiskError (List String) :=
  match d.root.descend? place with
  | none => .error .notFound
  | some (.file _) => .error .notADirectory
  | some (.dir entries) =>
    if Path.isIdle part then .ok place
    else if part = ['.', '.'] then .ok place.dropLast
    else
      let name := String.ofList part
      if (entries.lookup name).isSome then .ok (place ++ [name]) else .error .notFound

/-- The place that a path leads to. -/
def resolve (d : Disk) (path : String) : Except DiskError (List String) :=
  if path.isEmpty then .error .notFound
  else
    (Path.splitParts path.toList).foldlM d.step (if Path.isAbsolute path then [] else d.current)

/-- What stands at the end of a path. -/
def entry (d : Disk) (path : String) : Except DiskError Entry := do
  match d.root.descend? (← d.resolve path) with
  | some e => .ok e
  | none => .error .notFound

/-- The text of a file. -/
def readText (d : Disk) (path : String) : Except DiskError String := do
  match ← d.entry path with
  | .file text => .ok text
  | .dir _ => .error .isADirectory

def isFile (d : Disk) (path : String) : Bool :=
  match d.entry path with
  | .ok (.file _) => true
  | _ => false

def isDir (d : Disk) (path : String) : Bool :=
  match d.entry path with
  | .ok (.dir _) => true
  | _ => false

def exists? (d : Disk) (path : String) : Bool :=
  match d.entry path with
  | .ok _ => true
  | .error _ => false

/-- The place that a path names, whether there is something or not. -/
def placeOf (current : List String) (path : String) : List String :=
  (Path.splitParts path.toList).foldl
    (fun place part =>
      if Path.isIdle part then place
      else if part = ['.', '.'] then place.dropLast
      else place ++ [String.ofList part])
    (if Path.isAbsolute path then [] else current)

/-- The absolute path of a place. -/
def pathOf (place : List String) : String := "/" ++ String.intercalate "/" place

/-- The absolute path that a path leads to. -/
def canonical? (d : Disk) (path : String) : Option String := (d.resolve path).toOption.map pathOf

end Disk

end SafetyLint
