import SafetyLint.Engine.Rule
import SafetyLint.Text.Name

/-!
# No complex flow

Forbids `goto`, and calls by which a function, a method or a static method calls itself.  Only
direct recursion is seen: a function that calls itself by way of another one is not reported.
-/

namespace SafetyLint
namespace Rules
namespace ComplexFlow

open SafetyLint.Tree Config Text

def info : RuleInfo where
  id := .noComplexFlow
  name := "no-complex-flow"
  description := "Avoid complex flow constructs, such as goto and recursion."
  severity := .error

/-- What to say about an expression inside the innermost open function. -/
def recursion? (current : FunctionScope) (c : Context) : ExprKind → Option String
  | .call (.name name) _ =>
    if shortName name = shortName current.name then
      some "Recursive function calls are not allowed."
    else none
  | .methodCall _ method _ =>
    if current.kind = .method && c.inClass && method = shortName current.name then
      some "Recursive method calls are not allowed."
    else none
  | .staticCall (.name owner) method _ =>
    if current.kind = .method && method = shortName current.name
        && isSelfReference owner (c.class?.bind ClassDecl.name) then
      some "Recursive static method calls are not allowed."
    else none
  | _ => none

/-- What to say about a node. -/
def message? (node : Node) (c : Context) : Option String :=
  match node with
  | .stmt s =>
    match s.kind with
    | .goto _ => some "Goto statements are not allowed."
    | _ => none
  | .expr e => c.function?.bind fun current => recursion? current c e.kind
  | _ => none

def findings (_ : Settings) (site : Site) (c : Context) : List Finding :=
  (message? site.node c).toList.map (c.finding info site.node.line)

end ComplexFlow

/-- No goto and no direct recursion. -/
def complexFlow : Rule where
  toRuleInfo := ComplexFlow.info
  kinds := [.goto, .call, .methodCall, .staticCall]
  check := Rule.plain ComplexFlow.findings
  finish := Rule.silent

end Rules
end SafetyLint
