import SafetyLint.Ignore.Rules

/-!
# Ignore files of nested directories

Every directory on the way from the root to a path may have ignore files: `.ignore`, `.gitignore`
and the exclude file of a repository.  Of the first kind that has something to say about a path the
nearest file decides, then the second kind is asked, and so on.  The last two kinds count only
inside a repository, and only up to its root.

The directories of a search are named as the search names them, and see a path in the same
spelling.  The directories around the search are named by their absolute paths.
-/

namespace SafetyLint
namespace Ignore

/-- The ignore files of one directory. -/
structure Level where
  dir : String
  /-- The directory is not part of the search but stands around it. -/
  isOuter : Bool
  /-- The directory is the root of a repository. -/
  hasGit : Bool
  plain : List IgnoreRule
  git : List IgnoreRule
  exclude : List IgnoreRule

/-! ## Reading the files of a directory -/

/-- The first line of a text. -/
def firstLine? (text : String) : Option String := (linesOf text.toList).head?.map String.ofList

/-- The directory that holds the exclude file of a repository whose entry is a file: the file names
a directory, in which another file names the one that is wanted. -/
def linkedGitDir? (disk : Disk) (entry : String) : Option String := do
  let line ← firstLine? entry
  let dir ← behind? "gitdir: " line
  let text ← (disk.readText (Path.join dir "commondir")).toOption
  let common ← firstLine? text
  return if common.toList.head? = some '.' then Path.join dir common else common

/-- The directory that holds the exclude file of a repository. -/
def gitDir? (disk : Disk) (dir : String) : Option String :=
  let entry := Path.join dir ".git"
  match disk.readText entry with
  | .ok text => linkedGitDir? disk text
  | .error _ => some entry

/-- The names that an entry has which marks the root of a repository. -/
def repositoryMarks : List String := [".git", ".jj"]

/-- The directory is the root of a repository. -/
def isRepositoryRoot (disk : Disk) (dir : String) : Bool :=
  repositoryMarks.any fun name => disk.exists? (Path.join dir name)

/-- The ignore files of a directory of the search, and what is wrong with them.  Without
`gitignore` no file of that name is read. -/
def Level.read (disk : Disk) (gitignore : Bool) (dir : String) : Level × List FileFault :=
  let (plain, plainFaults) := rulesAt disk (Path.join dir ".ignore")
  let (git, gitFaults) := if gitignore then rulesAt disk (Path.join dir ".gitignore") else ([], [])
  let (exclude, excludeFaults) :=
    match gitDir? disk dir with
    | some gitDir => rulesAt disk (Path.join gitDir "info/exclude")
    | none => ([], [])
  (⟨dir, false, isRepositoryRoot disk dir, plain, git, exclude⟩,
    plainFaults ++ gitFaults ++ excludeFaults)

/-- The same of a directory around the search.  Where the files named `.gitignore` do not count,
repositories around the search do not count either. -/
def Level.readOuter (disk : Disk) (gitignore : Bool) (dir : String) : Level × List FileFault :=
  let (level, faults) := Level.read disk gitignore dir
  ({ level with isOuter := true, hasGit := level.hasGit && gitignore }, faults)

/-! ## Asking the levels -/

/-- A path in the two spellings in which levels see it. -/
structure Sighting where
  /-- As the search names it. -/
  walked : String
  absolute : String
  isDir : Bool

/-- What some rules of a level say about a path. -/
def Level.verdict? (l : Level) (rules : List IgnoreRule) (s : Sighting) : Option Verdict :=
  (RuleSet.inDir l.dir rules).verdict? (if l.isOuter then s.absolute else s.walked) s.isDir

/-- What the first level that has something to say says. -/
def firstVerdict? (levels : List Level) (rules : Level → List IgnoreRule) (s : Sighting) :
    Option Verdict :=
  levels.findSome? fun l => l.verdict? (rules l) s

/-- The levels up to the nearest root of a repository; none if there is no repository. -/
def insideRepository (levels : List Level) : List Level :=
  if levels.any Level.hasGit then
    levels.takeWhile (fun l => !l.hasGit) ++ (levels.find? Level.hasGit).toList
  else []

/-- What the ignore files above a path say about it; `levels` are those of the directories around
it, nearest first, and `global` is what the rules for all repositories say. -/
def levelVerdict? (levels : List Level) (global : Option Verdict) (s : Sighting) :
    Option Verdict :=
  let inner := insideRepository levels
  (firstVerdict? levels Level.plain s)
    <|> (firstVerdict? inner Level.git s)
    <|> (firstVerdict? inner Level.exclude s)
    <|> (if inner.isEmpty then none else global)

end Ignore
end SafetyLint
