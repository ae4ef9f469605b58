import SafetyLint.Engine.Rule
import SafetyLint.Text.Name

/-!
# Mandatory diagnostics

Warnings must not be hidden: neither by the operator that suppresses them nor by a function that
switches them off.  And every file has to declare certain directives in its header, which ends at
the first namespace or class.

The rule remembers which required directives have not come yet.  When the header ends, or else the
file, those that are missing are reported and forgotten, so each of them is reported at most once.
A directive with the wrong value is reported wherever it stands.
-/

namespace SafetyLint
namespace Rules
namespace Diagnostics

open SafetyLint.Tree Config Text

def info : RuleInfo where
  id := .mandatoryDiagnostics
  name := "mandatory-diagnostics"
  description :=
    "Compile with all possible warnings active; all warnings should then be addressed."
  severity := .error

/-! ## The header -/

/-- A header that was looked at: on the first look all required directives are still to come. -/
def start (settings : Settings) (h : Header) : Header :=
  if h.started then h else ⟨true, settings.directiveNames⟩

/-- The header after a directive. -/
def see (settings : Settings) (name : String) (h : Header) : Header :=
  let h := start settings h
  { h with unseen := h.unseen.filter (· ≠ name) }

/-- The directive is a required one. -/
def isRequired (settings : Settings) (d : Directive) : Bool :=
  (settings.requiredDirectives.lookup d.name).isSome

/-- What to say about a directive with another value than the required one. -/
def wrongValue? (settings : Settings) (d : Directive) : Option String :=
  match settings.requiredDirectives.lookup d.name with
  | some (some expected) =>
    if d.value.same expected then none
    else some ("Declare directive \"" ++ d.name ++ "\" must be set to " ++ expected.display ++ ".")
  | _ => none

/-- One directive of a declare statement.  One that is not required leaves the slot alone. -/
def checkDirective (settings : Settings) (line : Nat) (d : Directive) (c : Context) :
    Outcome × Context :=
  if isRequired settings d then
    match c.slot .header info.id with
    | .error err => (.error err, c)
    | .ok header =>
      (.ok ((wrongValue? settings d).toList.map (c.finding info line)),
        c.putSlot .header info.id (see settings d.name header))
  else (.ok [], c)

/-- A declare statement: one directive after the other, up to the first one that fails. -/
def checkDirectives (settings : Settings) (directives : List Directive) (line : Nat) (c : Context) :
    Outcome × Context :=
  match directives with
  | [] => (.ok [], c)
  | d :: rest =>
    match checkDirective settings line d c with
    | (.error err, c) => (.error err, c)
    | (.ok here, c) =>
      let (outcome, c) := checkDirectives settings rest line c
      (outcome.map fun later => here ++ later, c)

def missingMessage (name : String) : String :=
  "Missing required declare directive \"" ++ name ++ "\"."

/-- Reports and forgets the directives that have not come. -/
def reportMissing (settings : Settings) (line : Nat) (c : Context) : Outcome × Context :=
  match c.slot .header info.id with
  | .error err => (.error err, c)
  | .ok header =>
    let header := start settings header
    (.ok ((header.unseen.map missingMessage).map (c.finding info line)),
      c.putSlot .header info.id { header with unseen := [] })

/-! ## Hidden warnings -/

/-- What to say about an expression that hides warnings. -/
def message? (settings : Settings) : ExprKind → Option String
  | .errorSuppress _ => some "Error suppression operator (@) is not allowed as it hides warnings."
  | .call (.name name) _ =>
    if settings.suppressionFunctions.contains (shortName name) then
      some ("Error suppressing function \"" ++ shortName name ++ "\" is not allowed.")
    else none
  | _ => none

/-! ## The rule -/

def check (settings : Settings) (site : Site) (c : Context) : Outcome × Context :=
  let line := site.node.line
  match site.node with
  | .classDecl _ => reportMissing settings line c
  | .stmt s =>
    match s.kind with
    | .declareBlock directives => checkDirectives settings directives line c
    | .namespaceBlock _ _ => reportMissing settings line c
    | _ => (.ok [], c)
  | .expr e => (.ok ((message? settings e.kind).toList.map (c.finding info line)), c)
  | _ => (.ok [], c)

end Diagnostics

/-- Warnings are on and stay on. -/
def diagnostics : Rule where
  toRuleInfo := Diagnostics.info
  kinds := [.errorSuppress, .call, .declareBlock, .namespaceBlock, .classDecl]
  check := Diagnostics.check
  finish := fun settings c => Diagnostics.reportMissing settings 1 c

end Rules
end SafetyLint
