/-!
# Rule ids

The nine rules.  They are numbered after a list of ten, of which the eighth does not apply to the
language that is checked.
-/

namespace SafetyLint

/-- A rule. -/
inductive RuleId where
  /-- No goto and no direct recursion. -/
  | noComplexFlow
  /-- Every loop has a fixed bound. -/
  | fixedLoopBounds
  /-- No allocation after initialization. -/
  | noHeapAllocation
  /-- Functions fit on a page. -/
  | functionLength
  /-- Functions check their assumptions. -/
  | minimumAssertions
  /-- Data is visible only where it is needed. -/
  | restrictDataScope
  /-- Returned values are used. -/
  | checkReturnValue
  /-- Short access chains, and no function pointers. -/
  | limitDereferences
  /-- Warnings are on and stay on. -/
  | mandatoryDiagnostics
  deriving DecidableEq, Repr, Inhabited

namespace RuleId

/-- All rules by number. -/
def all : List RuleId :=
  [noComplexFlow, fixedLoopBounds, noHeapAllocation, functionLength, minimumAssertions,
   restrictDataScope, checkReturnValue, limitDereferences, mandatoryDiagnostics]

/-- The id as it is written. -/
def word : RuleId → String
  | noComplexFlow => "rule_1"
  | fixedLoopBounds => "rule_2"
  | noHeapAllocation => "rule_3"
  | functionLength => "rule_4"
  | minimumAssertions => "rule_5"
  | restrictDataScope => "rule_6"
  | checkReturnValue => "rule_7"
  | limitDereferences => "rule_9"
  | mandatoryDiagnostics => "rule_10"

/-- The rule with this id. -/
def ofWord? (s : String) : Option RuleId := all.find? fun id => id.word == s

/-- What is said about a word that is no id. -/
def unknownText (s : String) : String := s!"unknown rule id `{s}`"

/-- The rule with this id, or what to say about the word. -/
def parse (s : String) : Except String RuleId :=
  match ofWord? s with
  | some id => .ok id
  | none => .error (unknownText s)

@[simp] theorem ofWord?_word (id : RuleId) : ofWord? id.word = some id := by cases id <;> rfl

end RuleId

end SafetyLint
