import SafetyLint.Path
import SafetyLint.Text.Lines

/-!
# Findings

A finding says which rule was broken where.  A report is a list of findings with the number of files
that were checked; its findings are sorted by place, and findings in one place keep their order.
-/

namespace SafetyLint

/-- How serious a finding is, mildest first. -/
inductive Severity where
  | info
  | warning
  | error
  deriving DecidableEq, Repr, Inhabited

namespace Severity

def rank : Severity → Nat
  | info => 0
  | warning => 1
  | error => 2

/-- The severity is at least as serious as the other. -/
def atLeast (s threshold : Severity) : Bool := threshold.rank ≤ s.rank

def word : Severity → String
  | info => "info"
  | warning => "warning"
  | error => "error"

/-- The severity with exactly this word. -/
def ofWord? : String → Option Severity
  | "info" => some info
  | "warning" => some warning
  | "error" => some error
  | _ => none

/-- The severity that somebody means by a word, in any case and with one short form; else what to
say about the word. -/
def parse (s : String) : Except String Severity :=
  match Text.lower s with
  | "info" => .ok info
  | "warning" | "warn" => .ok warning
  | "error" => .ok error
  | other => .error s!"unknown severity: {other}"

@[simp] theorem ofWord?_word (s : Severity) : ofWord? s.word = some s := by cases s <;> rfl

end Severity

/-- A line of a file. -/
structure Location where
  file : String
  line : Nat
  deriving DecidableEq, Repr, Inhabited

namespace Location

/-- By file, then by line. -/
def compare (a b : Location) : Ordering :=
  (Path.compare a.file b.file).then (Ord.compare a.line b.line)

/-- `a` does not come after `b`. -/
def le (a b : Location) : Bool := (compare a b).isLE

end Location

/-- A rule is broken somewhere. -/
structure Finding where
  /-- The id of the rule, or the code of a rule that failed. -/
  code : String
  /-- The name of the rule. -/
  rule : String
  severity : Severity
  location : Location
  message : String
  /-- What one could do about it. -/
  suggestion : Option String
  deriving DecidableEq, Repr, Inhabited

namespace Finding

/-- The code of findings that stand for a failed rule. -/
def failureCode : String := "analysis_error"

/-- The finding that stands for a failed rule. -/
def failure (rule : String) (location : Location) (message : String) : Finding :=
  ⟨failureCode, rule, .error, location, message, none⟩

def isFailure (f : Finding) : Bool := f.code == failureCode

/-- The finding on one line. -/
def line (f : Finding) : String :=
  f.location.file ++ ":" ++ toString f.location.line ++ ": " ++ f.severity.word ++ " [" ++ f.code
    ++ "] " ++ f.message

/-- The line of help that goes with a finding. -/
def helpText (f : Finding) : String :=
  match f.suggestion with
  | some help => "  = help: " ++ help ++ "\n"
  | none => ""

/-- The finding over several lines, with the severity written by `severity`. -/
def blockWith (severity : Severity → String) (f : Finding) : String :=
  f.code ++ " " ++ f.rule ++ " at " ++ f.location.file ++ ":" ++ toString f.location.line ++ "\n  "
    ++ severity f.severity ++ ": " ++ f.message ++ "\n" ++ f.helpText

/-- The finding over several lines. -/
def block (f : Finding) : String := f.blockWith Severity.word

end Finding

/-- Sorts findings by place; findings in one place keep their order. -/
def sortFindings (fs : List Finding) : List Finding :=
  fs.mergeSort fun a b => a.location.le b.location

/-- The outcome of checking files. -/
structure Report where
  findings : List Finding
  filesChecked : Nat
  deriving Repr, Inhabited

namespace Report

def empty : Report := ⟨[], 0⟩

/-- Some finding is at least this serious. -/
def hasAtLeast (r : Report) (s : Severity) : Bool := r.findings.any fun f => f.severity.atLeast s

def hasErrors (r : Report) : Bool := r.hasAtLeast .error

/-- Number of findings of one severity. -/
def count (r : Report) (s : Severity) : Nat := r.findings.countP fun f => f.severity = s

/-- Number of findings that stand for a failed rule. -/
def failures (r : Report) : Nat := r.findings.countP Finding.isFailure

def sort (r : Report) : Report := { r with findings := sortFindings r.findings }

/-- Both reports, the findings of the second after those of the first. -/
def append (r s : Report) : Report :=
  ⟨r.findings ++ s.findings, r.filesChecked + s.filesChecked⟩

/-- Adds a finding at the end. -/
def push (r : Report) (f : Finding) : Report := { r with findings := r.findings ++ [f] }

/-- Replaces the suggestion of the last finding, if there is one. -/
def suggest? (r : Report) (help : String) : Option Report :=
  match r.findings.getLast? with
  | none => none
  | some f =>
    some { r with findings := r.findings.dropLast ++ [{ f with suggestion := some help }] }

end Report

/-! ## Findings in their text -/

/-- A finding prepared for display inside its source text: the message with its code, the help, and
the marked bytes with their label. -/
structure Diagnostic where
  message : String
  help : Option String
  label : Option (Nat × Nat × String)
  hasSource : Bool
  deriving DecidableEq, Repr

/-- Marks the line of the finding in its text; without text, or past its end, nothing is marked. -/
def Diagnostic.ofFinding (f : Finding) (text : Option String) : Diagnostic where
  message := "[" ++ f.code ++ "] " ++ f.message
  help := f.suggestion
  label := do
    let text ← text
    let (offset, length) ← Text.lineSpan text.toList f.location.line
    return (offset, length, f.rule)
  hasSource := text.isSome

end SafetyLint
