import SafetyLint.Engine.Rule

/-!
# Limited dereferences

Method calls and property accesses are links, and links on links form a chain.  A chain that is too
long is reported once, at its outermost link: the rule remembers the places of the other links of
the chain and passes over them when their turn comes.  A chain that starts at a static call counts
one link more.

Indexing what a link returns is one dereference too many, and function pointers of any make are not
allowed at all.
-/

namespace SafetyLint
namespace Rules
namespace Dereferences

open SafetyLint.Tree Config

def info : RuleInfo where
  id := .limitDereferences
  name := "limit-dereferences"
  description := "Limit pointer use to a single dereference, and do not use function pointers."
  severity := .error

/-! ## Chains -/

/-- What a link is applied to. -/
def linkTarget? (e : Expr) : Option Expr :=
  match e.kind with
  | .methodCall receiver _ _ => some receiver
  | .propertyFetch object _ => some object
  | _ => none

def isLink (e : Expr) : Bool := (linkTarget? e).isSome

def isStaticCall (e : Expr) : Bool :=
  match e.kind with
  | .staticCall _ _ _ => true
  | _ => false

theorem sizeOf_linkTarget_lt {e target : Expr} (h : linkTarget? e = some target) :
    sizeOf target < sizeOf e := by
  obtain ⟨span, kind, type⟩ := e
  unfold linkTarget? at h
  split at h
  · next receiver method args heq =>
    cases h
    simp only at heq
    subst heq
    simp
    omega
  · next object property heq =>
    cases h
    simp only at heq
    subst heq
    simp
    omega
  · simp at h

/-- Number of links from the expression down to the first expression that is none. -/
def hops (e : Expr) : Nat :=
  match _h : linkTarget? e with
  | some target => hops target + 1
  | none => 0
termination_by sizeOf e
decreasing_by exact sizeOf_linkTarget_lt ‹_›

/-- The expression at the bottom of a chain. -/
def bottom (e : Expr) : Expr :=
  match _h : linkTarget? e with
  | some target => bottom target
  | none => e
termination_by sizeOf e
decreasing_by exact sizeOf_linkTarget_lt ‹_›

/-- Number of dereferences in a chain. -/
def depth (e : Expr) : Nat := hops e + if isStaticCall (bottom e) then 1 else 0

/-- The places of the first `n` links inside the link at `p`.  What a link is applied to is always
its first child. -/
def innerPlaces (p : Place) : Nat → List Place
  | 0 => []
  | n + 1 => p.child 0 :: innerPlaces (p.child 0) n

/-- What to say about a chain that is too long. -/
def chainMessage (max : Nat) (e : Expr) : String :=
  match e.kind with
  | .methodCall receiver _ _ =>
    if isStaticCall receiver then
      "Method calls on static call results exceed allowed limit of " ++ toString max
        ++ " dereference(s)."
    else
      "Method call chains should be limited to " ++ toString max ++ " dereference(s). Found "
        ++ toString (depth e) ++ "."
  | _ =>
    "Property access chains should be limited to " ++ toString max ++ " dereference(s). Found "
      ++ toString (depth e) ++ "."

/-- Looks at a link, when the links in `covered` belong to chains that are already reported. -/
def checkLink (max : Nat) (place : Place) (e : Expr) (covered : List Place) :
    Option String × List Place :=
  if covered.contains place then (none, covered.filter (· ≠ place))
  else if depth e ≤ max then (none, covered)
  else (some (chainMessage max e), innerPlaces place (hops e - 1) ++ covered)

/-! ## Function pointers -/

/-- An array of an object and a text, which can be called like a function. -/
def isCallableArray : List ArrayItem → Bool
  | [target, method] =>
    (match target.value.kind with
      | .var _ => true
      | .propertyFetch _ _ => true
      | _ => false)
    && match method.value.kind with
      | .literal (.text _) => true
      | _ => false
  | _ => false

/-- What to say about an expression that is no link. -/
def message? (max : Nat) : ExprKind → Option String
  | .arrayDimFetch array _ =>
    if max < 2 && isLink array then
      some ("Array access on property or method result exceeds allowed limit of " ++ toString max
        ++ " dereference(s).")
    else none
  | .call (.expr _) _ => some "Variable functions (function pointers) are not allowed."
  | .closure _ _ _ => some "Closures (function pointers) are not allowed."
  | .arrowFunction _ _ => some "Closures (function pointers) are not allowed."
  | .array items =>
    if isCallableArray items then some "Callable arrays (function pointers) are not allowed."
    else none
  | _ => none

/-! ## The rule -/

def check (settings : Settings) (site : Site) (c : Context) : Outcome × Context :=
  match site.node with
  | .expr e =>
    let report (message : Option String) : List Finding :=
      message.toList.map (c.finding info site.node.line)
    if isLink e then
      match c.slot .links info.id with
      | .error err => (.error err, c)
      | .ok covered =>
        let (message, covered) := checkLink settings.maxDereferences site.place e covered
        (.ok (report message), c.putSlot .links info.id covered)
    else (.ok (report (message? settings.maxDereferences e.kind)), c)
  | _ => (.ok [], c)

end Dereferences

/-- Short access chains, and no function pointers. -/
def dereferences : Rule where
  toRuleInfo := Dereferences.info
  kinds := [.methodCall, .propertyFetch, .arrayDimFetch, .call, .closure, .arrowFunction, .array]
  check := Dereferences.check
  finish := Rule.silent

end Rules
end SafetyLint
