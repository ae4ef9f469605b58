import SafetyLint.Engine.RuleId
import SafetyLint.Finding
import SafetyLint.Text.AllowList
import SafetyLint.Tree.Basic

/-!
# Settings

What the rules go by during a run.  Settings are made once, from a configuration that passed its
checks, and never change while files are walked.
-/

namespace SafetyLint
namespace Config

open Text (AllowList)

/-- The settings of a run. -/
structure Settings where
  /-- Largest accepted loop bound. -/
  maxLoopIterations : Nat
  /-- Functions in which allocation is allowed. -/
  initMethods : List String
  /-- Functions that allocate resources. -/
  resourceFunctions : List String
  /-- Methods by which containers grow. -/
  containerMethods : List String
  /-- Container classes, by short or qualified name. -/
  containerTypes : List String
  /-- Longest accepted function, in lines. -/
  maxFunctionLines : Nat
  /-- Comment lines count towards the length of a function. -/
  countComments : Bool
  /-- Blank lines count towards the length of a function. -/
  countBlankLines : Bool
  assertionFunctions : List String
  assertionMethods : List String
  /-- Functions that raise an error. -/
  exceptionFunctions : List String
  /-- Required assertions per function. -/
  minAssertions : Nat
  /-- Most properties a class may hold. -/
  maxClassProperties : Nat
  allowedPublicProperties : AllowList
  allowedGlobals : AllowList
  /-- Largest accepted gap between assignment and first read. -/
  maxLinesToFirstUse : Nat
  /-- Functions whose result may be discarded. -/
  ignoredFunctions : List String
  /-- A method called on the result of a call may discard its result. -/
  allowFluentChains : Bool
  /-- Longest accepted access chain. -/
  maxDereferences : Nat
  /-- Functions that switch off or reroute error reporting. -/
  suppressionFunctions : List String
  /-- Directives that every file has to declare; without a value, any value will do. -/
  requiredDirectives : List (String × Option Tree.Scalar)
  enabled : List RuleId
  /-- Rules that stay off even if they are enabled. -/
  excepted : List RuleId
  severities : List (RuleId × Severity)

namespace Settings

/-- The rule is enabled and not excepted. -/
def isActive (s : Settings) (id : RuleId) : Bool := s.enabled.contains id && !s.excepted.contains id

/-- The severity that replaces the one of the rule. -/
def severity? (s : Settings) (id : RuleId) : Option Severity := s.severities.lookup id

/-- The settings with other enabled rules. -/
def only (s : Settings) (ids : List RuleId) : Settings := { s with enabled := ids }

end Settings

/-- The members of a list of names, in order and each once. -/
def sortedNames (names : List String) : List String :=
  (names.mergeSort fun a b => a ≤ b).eraseDups

/-- The required directives by name. -/
def Settings.directiveNames (s : Settings) : List String :=
  sortedNames (s.requiredDirectives.map Prod.fst)

end Config
end SafetyLint
