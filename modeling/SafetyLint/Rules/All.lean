import SafetyLint.Rules.ComplexFlow
import SafetyLint.Rules.LoopBounds
import SafetyLint.Rules.Allocation
import SafetyLint.Rules.FunctionLength
import SafetyLint.Rules.Assertions
import SafetyLint.Rules.DataScope
import SafetyLint.Rules.ReturnValue
import SafetyLint.Rules.Dereferences
import SafetyLint.Rules.Diagnostics

/-!
# The nine rules
-/

namespace SafetyLint
namespace Rules

/-- The rule behind an id. -/
def ofId : RuleId → Rule
  | .noComplexFlow => complexFlow
  | .fixedLoopBounds => loopBounds
  | .noHeapAllocation => allocation
  | .functionLength => functionLength
  | .minimumAssertions => assertions
  | .restrictDataScope => dataScope
  | .checkReturnValue => returnValue
  | .limitDereferences => dereferences
  | .mandatoryDiagnostics => diagnostics

/-- All rules by number. -/
def all : List Rule := RuleId.all.map ofId

/-- The rule with this name. -/
def ofName? (name : String) : Option Rule := all.find? fun r => r.name == name

@[simp] theorem id_ofId (id : RuleId) : (ofId id).id = id := by cases id <;> rfl

end Rules
end SafetyLint
