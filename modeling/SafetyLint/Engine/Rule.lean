import SafetyLint.Config.Settings
import SafetyLint.Engine.Context

/-!
# Rules

A rule names the kinds of nodes it wants to see.  On each such node its check may look at the
settings, the node and the context, and gives findings or an error together with the context it
leaves.  At the end of a file it is asked once more.
-/

namespace SafetyLint

open SafetyLint.Tree Config

/-- Who a rule is. -/
structure RuleInfo where
  id : RuleId
  name : String
  description : String
  severity : Severity
  deriving DecidableEq, Repr

/-- A finding of the rule on a line of the file that is walked. -/
def Context.finding (c : Context) (rule : RuleInfo) (line : Nat) (message : String) : Finding :=
  ⟨rule.id.word, rule.name, rule.severity, c.location line, message, none⟩

/-- Findings, or why there are none. -/
abbrev Outcome := Except RuleError (List Finding)

/-- A rule. -/
structure Rule extends RuleInfo where
  /-- The kinds of nodes that the rule is asked about. -/
  kinds : List NodeKind
  check : Settings → Site → Context → Outcome × Context
  /-- What the rule says at the end of a file. -/
  finish : Settings → Context → Outcome × Context

namespace Rule

/-- A check that neither fails nor remembers anything. -/
def plain (findings : Settings → Site → Context → List Finding) :
    Settings → Site → Context → Outcome × Context :=
  fun settings site c => (.ok (findings settings site c), c)

/-- Nothing to say at the end of a file. -/
def silent : Settings → Context → Outcome × Context := fun _ c => (.ok [], c)

@[simp] theorem plain_apply (findings : Settings → Site → Context → List Finding)
    (settings : Settings) (site : Site) (c : Context) :
    plain findings settings site c = (.ok (findings settings site c), c) := rfl

end Rule

end SafetyLint
