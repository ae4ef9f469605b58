import SafetyLint.Ignore.Level

/-!
# Finding files

All files below a directory whose name has some ending, except those that are excluded by patterns
or by ignore files.  A directory that is excluded is not entered.  The directory itself is never
excluded.
-/

namespace SafetyLint
namespace Ignore

/-- What is looked for, and what is left out. -/
structure Search where
  disk : Disk
  /-- The directory that is searched, as it was named. -/
  start : String
  /-- The ending of the wanted names. -/
  ending : String
  /-- Patterns of what is left out. -/
  excluded : RuleSet
  /-- The files named `.gitignore` count. -/
  gitignore : Bool
  /-- The rules for all repositories. -/
  global : RuleSet

namespace Search

/-- A path of the search in both its spellings; `base` is the absolute path of the searched
directory.  What follows the name of that directory follows `base`. -/
def sight (s : Search) (base path : String) (isDir : Bool) : Sighting :=
  let walked := dropDotSlash path
  let inside :=
    if isHere s.start then walked
    else
      let rest := (behind? (dropDotSlash s.start) walked).getD walked
      (behind? "/" rest).getD rest
  ⟨walked, Path.join base inside, isDir⟩

/-- The entry at a path is left out. -/
def leavesOut (s : Search) (levels : List Level) (base path : String) (isDir : Bool) : Bool :=
  let seen := s.sight base path isDir
  (s.excluded.verdict? seen.walked isDir).isSome ||
    levelVerdict? levels (s.global.verdict? seen.walked isDir) seen = some .ignore

/-- The name has the wanted ending. -/
def isWanted (s : Search) (name : String) : Bool :=
  s.ending.toList.reverse.isPrefixOf name.toList.reverse

mutual

/-- The wanted files among some entries of a directory and below them. -/
def findIn (s : Search) (base : String) (levels : List Level) (dir : String) :
    List (String × Entry) → List String
  | [] => []
  | (name, e) :: rest =>
    (if s.leavesOut levels base (Path.join dir name) e.isDir then []
    else s.findAt base levels (Path.join dir name) name e)
      ++ s.findIn base levels dir rest

/-- The wanted files at and below an entry that is not left out. -/
def findAt (s : Search) (base : String) (levels : List Level) (path name : String) :
    Entry → List String
  | .file _ => if s.isWanted name then [path] else []
  | .dir entries =>
    s.findIn base ((Level.read s.disk s.gitignore path).1 :: levels) path entries

end

/-- The absolute paths of the directories above a place, outermost first. -/
def outerDirs (place : List String) : List String :=
  (List.range place.length).map fun n => Disk.pathOf (place.take n)

/-- The wanted files below the searched directory in the order of their paths; or the first
thing that is wrong with the ignore files around the directory. -/
def find (s : Search) : Except FileFault (List String) :=
  match s.disk.resolve s.start with
  | .error _ => .ok []
  | .ok place =>
    -- A dash means standard input, where there are no files.
    if Path.components s.start = [.name "-"] then .ok []
    else
      let outer := (outerDirs place).map (Level.readOuter s.disk s.gitignore)
      match (outer.flatMap Prod.snd).head?, s.disk.root.descend? place with
      | some fault, _ => .error fault
      | none, some e =>
        let files := s.findAt (Disk.pathOf place) (outer.map Prod.fst).reverse s.start "" e
        .ok (files.mergeSort fun a b => (Path.compare a b).isLE)
      | none, none => .ok []

end Search

/-- Why exclude patterns make no rules. -/
inductive ExcludeFault where
  /-- A text is no pattern. -/
  | pattern (text : String)
  /-- The patterns make no set. -/
  | set (fault : SetFault)

def ExcludeFault.message : ExcludeFault → String
  | pattern text => "Invalid exclude pattern: " ++ text
  | set fault => fault.message

/-- The rules of exclude patterns, one by one. -/
def readExcludes : List String → Except ExcludeFault (List IgnoreRule)
  | [] => .ok []
  | pattern :: rest =>
    match readRule false ('!' :: pattern.toList) with
    | .error _ => .error (.pattern pattern)
    | .ok rule => (readExcludes rest).map fun rules => rule.toList ++ rules

/-- The rules of exclude patterns. -/
def excludeRules (patterns : List String) : Except ExcludeFault (List IgnoreRule) := do
  let rules ← readExcludes patterns
  match setFault? (rules.map IgnoreRule.pattern) with
  | some fault => .error (.set fault)
  | none => return rules

end Ignore
end SafetyLint
