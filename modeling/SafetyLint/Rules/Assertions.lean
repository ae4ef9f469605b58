import SafetyLint.Engine.Rule
import SafetyLint.Text.Name

/-!
# Minimum assertions

A function has to check its assumptions.  Calls of assertion functions and assertion methods count,
and so do guards: an `if` whose first branch throws, an `if` whose first branch raises an error by a
call, and a conditional expression that does so.

Abstract declarations and methods whose names start with two underscores are not looked at.
-/

namespace SafetyLint
namespace Rules
namespace Assertions

open SafetyLint.Tree Config Text

def info : RuleInfo where
  id := .minimumAssertions
  name := "minimum-assertions"
  description := "Use a minimum of two runtime assertions per function."
  severity := .error

/-- The node is a call of one of the functions. -/
def callsOneOf (names : List String) : Node → Bool
  | .expr e =>
    match e.kind with
    | .call (.name name) _ => names.contains (shortName name)
    | _ => false
  | _ => false

/-- One of the functions is called below the node. -/
def callsBelow (names : List String) (n : Node) : Bool := Walk.occurs (callsOneOf names) n

/-- A statement of the branch is a throw expression. -/
def throwsDirectly (branch : List Stmt) : Bool :=
  branch.any fun s =>
    match s.kind with
    | .expression e =>
      match e.kind with
      | .throw _ => true
      | _ => false
    | _ => false

/-- What a single node adds to the count. -/
def weight (settings : Settings) (n : Node) : Nat :=
  match n with
  | .stmt s =>
    match s.kind with
    | .ifElse _ branch _ _ =>
      (if throwsDirectly branch then 1 else 0)
        + if branch.any fun s => callsBelow settings.exceptionFunctions (.ofStmt s) then 1 else 0
    | _ => 0
  | .expr e =>
    match e.kind with
    | .call (.name name) _ =>
      if settings.assertionFunctions.contains (shortName name) then 1 else 0
    | .methodCall _ method _ => if settings.assertionMethods.contains method then 1 else 0
    | .staticCall _ method _ => if settings.assertionMethods.contains method then 1 else 0
    | .ternary _ _ _ => if callsBelow settings.exceptionFunctions n then 1 else 0
    | _ => 0
  | _ => 0

/-- Number of assertions below a declaration. -/
def count (settings : Settings) (decl : FunctionDecl) : Nat :=
  let nodes := Walk.collect (Node.isOf [.call, .methodCall, .staticCall, .ifElse, .ternary])
    (.function decl)
  total (weight settings) nodes

/-- What to say about a declaration. -/
def message? (settings : Settings) (decl : FunctionDecl) : Option String :=
  if decl.isAbstract || decl.body.isNone then none
  else
    let n := count settings decl
    if n < settings.minAssertions then
      some ("Function \"" ++ decl.name ++ "\" contains " ++ toString n
        ++ " assertions, but at least " ++ toString settings.minAssertions ++ " are required.")
    else none

/-- The name starts with two underscores. -/
def isMagic (name : String) : Bool := ['_', '_'].isPrefixOf name.toList

def findings (settings : Settings) (site : Site) (c : Context) : List Finding :=
  let message :=
    match site.node with
    | .function decl => message? settings decl
    | .method decl => if isMagic decl.name then none else message? settings decl
    | _ => none
  message.toList.map (c.finding info site.node.line)

end Assertions

/-- Functions check their assumptions. -/
def assertions : Rule where
  toRuleInfo := Assertions.info
  kinds := [.function, .method]
  check := Rule.plain Assertions.findings
  finish := Rule.silent

end Rules
end SafetyLint
