import SafetyLint.Engine.Rule
import SafetyLint.Text.Name

/-!
# No allocation after initialization

Inside the functions that initialize things everything may be allocated.  Everywhere else, also
outside of functions, new objects, array literals with items, functions that allocate resources and
the methods by which containers grow are reported.
-/

namespace SafetyLint
namespace Rules
namespace Allocation

open SafetyLint.Tree Config Text

def info : RuleInfo where
  id := .noHeapAllocation
  name := "no-heap-allocation"
  description := "Do not use dynamic memory allocation after initialization."
  severity := .error

/-- The innermost open function initializes something. -/
def inInitMethod (settings : Settings) (c : Context) : Bool :=
  c.function?.any fun scope => settings.initMethods.contains (shortName scope.name)

/-- The type is one of the container classes. -/
def isContainer (settings : Settings) (type : Ty) : Bool :=
  type.className?.any fun name =>
    settings.containerTypes.contains name || settings.containerTypes.contains (shortName name)

/-- What to say about an expression outside of initialization. -/
def message? (settings : Settings) : ExprKind → Option String
  | .new _ _ => some "Object instantiation is not allowed after initialization."
  | .array items =>
    if items.isEmpty then none
    else some "Dynamic array creation is not allowed after initialization."
  | .call (.name name) _ =>
    if settings.resourceFunctions.contains (shortName name) then
      some ("Resource allocation function \"" ++ shortName name
        ++ "\" is not allowed after initialization.")
    else none
  | .methodCall receiver method _ =>
    if settings.containerMethods.contains method && isContainer settings receiver.type then
      some ("Container method \"" ++ method
        ++ "\" that allocates memory is not allowed after initialization.")
    else none
  | _ => none

def findings (settings : Settings) (site : Site) (c : Context) : List Finding :=
  match site.node with
  | .expr e =>
    if inInitMethod settings c then []
    else (message? settings e.kind).toList.map (c.finding info site.node.line)
  | _ => []

end Allocation

/-- No allocation after initialization. -/
def allocation : Rule where
  toRuleInfo := Allocation.info
  kinds := [.new, .array, .call, .methodCall]
  check := Rule.plain Allocation.findings
  finish := Rule.silent

end Rules
end SafetyLint
