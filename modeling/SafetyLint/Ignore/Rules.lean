import SafetyLint.Disk
import SafetyLint.Ignore.Expression
import SafetyLint.Text.Lines

/-!
# Ignore rules

An ignore file has one rule a line.  A rule is a path pattern, relative to the directory of the
file; a pattern without a slash in it holds at any depth.  With `!` in front it keeps what earlier
rules ignore, with `/` at its end it is about directories only.  Of the rules of a file that match a
path, the last one decides.
-/

namespace SafetyLint
namespace Ignore

/-! ## Rules -/

/-- What a rule says about a path. -/
inductive Verdict where
  | ignore
  | keep
  deriving DecidableEq, Repr

/-- One line of an ignore file. -/
structure IgnoreRule where
  verdict : Verdict
  /-- The rule is about directories only. -/
  onlyDirs : Bool
  pattern : List Token

namespace IgnoreRule

/-- The rule is about this path. -/
def appliesTo (r : IgnoreRule) (path : String) (isDir : Bool) : Bool :=
  (!r.onlyDirs || isDir) && matchesPath r.pattern path

end IgnoreRule

/-- A line without the blanks at its end, unless the last of them is escaped. -/
def trimLine (line : List Char) : List Char :=
  if [' ', '\\'].isPrefixOf line.reverse then line else Text.trimEnd line

/-- The text of a pattern whose place in the path is fixed as the line says: without a slash it may
stand in any directory, and behind a slash `**` is for what is inside of a directory. -/
def patternText (anchored : Bool) (body : List Char) : String :=
  let free := !anchored && !body.contains '/' && body ≠ ['*', '*']
  let text := if free then ['*', '*', '/'] ++ body else body
  String.ofList (if ['*', '*', '/'].isPrefixOf text.reverse then text ++ ['/', '*'] else text)

/-- Cuts a slash off the end of a body, together with a backslash before it. -/
def cutSlash (body : List Char) : Bool × List Char :=
  if body.getLast? = some '/' then
    let body := body.dropLast
    (true, if body.getLast? = some '\\' then body.dropLast else body)
  else (false, body)

/-- The rule of a line; comments and blank lines have none. -/
def readRule (lenient : Bool) (line : List Char) : Except PatternFault (Option IgnoreRule) := do
  let line' := trimLine line
  if line.head? = some '#' || line'.isEmpty then return none
  let escaped := ['\\', '!'].isPrefixOf line' || ['\\', '#'].isPrefixOf line'
  let negated := !escaped && line'.head? = some '!'
  let body := if escaped || negated then line'.drop 1 else line'
  let anchored := !escaped && body.head? = some '/'
  let body := if anchored then body.drop 1 else body
  let (onlyDirs, body) := cutSlash body
  let pattern ← readPattern lenient (patternText anchored body)
  return some ⟨if negated then .keep else .ignore, onlyDirs, pattern⟩

/-! ## Files of rules -/

/-- What the last rule that applies says. -/
def verdict? (rules : List IgnoreRule) (path : String) (isDir : Bool) : Option Verdict :=
  (rules.reverse.find? fun r => r.appliesTo path isDir).map IgnoreRule.verdict

/-! ## Paths as rules see them -/

/-- The part of a text behind some front. -/
def behind? (front text : String) : Option String :=
  if front.toList.isPrefixOf text.toList then
    some (String.ofList (text.toList.drop front.length))
  else none

/-- The path without a dot and a slash in front; only one of them is dropped. -/
def dropDotSlash (path : String) : String := (behind? "./" path).getD path

/-- The path names the current directory by dots. -/
def isHere (path : String) : Bool := Path.components path = [.current]

/-- Rules with the directory that they are relative to. -/
structure RuleSet where
  /-- The directory, without a dot and a slash in front. -/
  root : String
  rules : List IgnoreRule

namespace RuleSet

/-- The rules of a directory. -/
def inDir (dir : String) (rules : List IgnoreRule) : RuleSet := ⟨dropDotSlash dir, rules⟩

/-- The path as seen from the root.  Spellings are compared, not components: a path that does not
start with the text of the root stays as it is, and so does a mere name. -/
def inside (s : RuleSet) (path : String) : String :=
  let path := dropDotSlash path
  if isHere s.root || !path.toList.contains '/' then path
  else
    match behind? s.root path with
    | some rest => (behind? "/" rest).getD rest
    | none => path

/-- What the rules say about a path. -/
def verdict? (s : RuleSet) (path : String) (isDir : Bool) : Option Verdict :=
  if s.rules.isEmpty then none else Ignore.verdict? s.rules (s.inside path) isDir

end RuleSet

/-! ## Reading files of rules -/

/-- What is wrong with a file of rules. -/
inductive FileFault where
  /-- A line is no rule. -/
  | line (file : String) (number : Nat) (text : String) (fault : PatternFault)
  /-- The rules make no set. -/
  | set (fault : SetFault)

def FileFault.message : FileFault → String
  | line file number text fault =>
    file ++ ": line " ++ toString number ++ ": error parsing glob '" ++ text ++ "': "
      ++ fault.message
  | set fault => fault.message

/-- A line without a carriage return at its end. -/
def dropReturn (line : List Char) : List Char :=
  if line.getLast? = some '\r' then line.dropLast else line

/-- The lines of a file.  A carriage return belongs to the newline behind it, so a last line without
a newline keeps it. -/
def linesOf (cs : List Char) : List (List Char) :=
  let pieces := Text.pieces cs
  let last := (pieces.getLast?).getD []
  pieces.dropLast.map dropReturn ++ if last.isEmpty then [] else [last]

/-- The lines of a file that are rules, and those that are none. -/
def readLines (file : String) (lines : List (List Char)) : List IgnoreRule × List FileFault :=
  (lines.mapIdx fun i line => (i + 1, line)).foldl
    (fun (rules, faults) (number, line) =>
      match readRule true line with
      | .ok none => (rules, faults)
      | .ok (some r) => (rules ++ [r], faults)
      | .error e => (rules, faults ++ [.line file number (String.ofList (trimLine line)) e]))
    ([], [])

/-- The rules of a file, and what is wrong with it.  Rules that make no set do not count at all.
Marks of the byte order in front of the text do not count either. -/
def readRules (file text : String) : List IgnoreRule × List FileFault :=
  let (rules, faults) := readLines file (linesOf (text.toList.dropWhile (· = '\ufeff')))
  match setFault? (rules.map IgnoreRule.pattern) with
  | some fault => ([], faults ++ [.set fault])
  | none => (rules, faults)

/-- The rules of a file on disk; a file that is not there has none. -/
def rulesAt (disk : Disk) (file : String) : List IgnoreRule × List FileFault :=
  match disk.readText file with
  | .ok text => readRules file text
  | .error _ => ([], [])

end Ignore
end SafetyLint
