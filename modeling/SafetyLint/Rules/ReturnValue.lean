import SafetyLint.Engine.Rule
import SafetyLint.Text.Name

/-!
# Checked return values

A call that stands alone as a statement discards what it returns.  That is reported when the type of
the call says that something useful is returned, unless a comment in front of the statement says
that this is meant, the function may be ignored, or the call continues a fluent chain.
-/

namespace SafetyLint
namespace Rules
namespace ReturnValue

open SafetyLint.Tree Config Text

def info : RuleInfo where
  id := .checkReturnValue
  name := "check-return-value"
  description := "Check the return value of all non-void functions."
  severity := .error

/-- The marks in a comment that say that a result is discarded on purpose. -/
def ignoreMarks : List String := ["@ignoreReturnValue", "@void", "@return-value-ignored"]

def isCall (e : Expr) : Bool :=
  match e.kind with
  | .call _ _ => true
  | .methodCall _ _ _ => true
  | .staticCall _ _ _ => true
  | _ => false

/-- A comment in front of the statement has an ignore mark. -/
def isMarked (s : Stmt) : Bool :=
  s.comments.any fun c => ignoreMarks.any fun mark => hasPart mark.toList c.toList

/-- The result of the call may be discarded whatever it is. -/
def isExempt (settings : Settings) (call : Expr) : Bool :=
  match call.kind with
  | .call (.name name) _ => settings.ignoredFunctions.contains (shortName name)
  | .methodCall receiver _ _ => settings.allowFluentChains && isCall receiver
  | _ => false

/-- The call in words. -/
def describe (call : Expr) : String :=
  match call.kind with
  | .call (.name name) _ => "function " ++ name ++ "()"
  | .methodCall receiver method _ =>
    "method " ++ receiver.type.className?.getD "object" ++ "::" ++ method ++ "()"
  | .staticCall owner method _ =>
    let ownerName :=
      match owner with
      | .name name => name
      | _ => "unknown class"
    "static method " ++ ownerName ++ "::" ++ method ++ "()"
  | _ => "function call"

/-- The statement discards a useful result. -/
def discards (settings : Settings) (s : Stmt) (call : Expr) : Bool :=
  isCall call && !isMarked s && !isExempt settings call && !call.type.isVoid
    && !call.type.isUninformative

def findings (settings : Settings) (site : Site) (c : Context) : List Finding :=
  match site.node with
  | .stmt s =>
    match s.kind with
    | .expression call =>
      if discards settings s call then
        [c.finding info site.node.line
          ("Return value of " ++ describe call
            ++ " is not used. Either use the return value or add a @ignoreReturnValue annotation.")]
      else []
    | _ => []
  | _ => []

end ReturnValue

/-- Returned values are used. -/
def returnValue : Rule where
  toRuleInfo := ReturnValue.info
  kinds := [.expression]
  check := Rule.plain ReturnValue.findings
  finish := Rule.silent

end Rules
end SafetyLint
