import SafetyLint.Engine.Rule

/-!
# Fixed loop bounds

Every loop needs an upper bound that can be read off the tree.  A `for` loop has one when a
condition compares with a constant that is small enough; a `foreach` loop when the size of what it
runs over is known and small enough, or when that is a countable object.  Other loops have none.

Constants and sizes are known from static types, which `typeOf` answers.
-/

namespace SafetyLint
namespace Rules
namespace LoopBounds

open SafetyLint.Tree Config Text

def info : RuleInfo where
  id := .fixedLoopBounds
  name := "fixed-loop-bounds"
  description := "All loops must have fixed bounds. This prevents runaway code."
  severity := .error

section

variable (typeOf : TypeOracle)

/-- The integer that an expression is known to be: by its type, or as a literal. -/
def constant? (e : Expr) : Option Int :=
  match (typeOf e).constantInt? with
  | some i => some i
  | none =>
    match e.kind with
    | .literal (.int i) => some i
    | _ => none

/-- The condition says that something is less than, or at most, a constant within `max`. -/
def hasFixedBound (max : Nat) (condition : Expr) : Bool :=
  match condition.kind with
  | .binary .smaller _ right => (constant? typeOf right).any fun bound => bound ≤ (max : Int)
  | .binary .smallerOrEqual _ right => (constant? typeOf right).any fun bound => bound ≤ (max : Int)
  | _ => false

def forMessage? (max : Nat) (conditions steps : List Expr) : Option String :=
  if conditions.isEmpty || steps.isEmpty then
    some "For loop must have a condition and increment to ensure fixed bounds."
  else if conditions.any (hasFixedBound typeOf max) then none
  else some "For loop must have a fixed upper bound to prevent runaway code."

/-- The condition is the word `true`. -/
def isTrue (condition : Expr) : Bool :=
  match condition.kind with
  | .constFetch name => sameLetters name "true"
  | .literal (.bool b) => b
  | _ => false

def whileMessage (condition : Expr) : String :=
  if isTrue condition then "While/do-while loop with condition \"true\" has no upper bound."
  else "While/do-while loop must have a verifiable fixed upper bound to prevent runaway code."

/-- What is known about the number of items that a loop runs over. -/
inductive Size where
  | known (n : Nat)
  /-- Finite, which is enough. -/
  | finite
  | unknown

def sizeOf (iterable : Expr) : Size :=
  match typeOf iterable with
  | .array (some n) => .known n
  | .array none => .finite
  | .object _ true => .finite
  | _ =>
    match iterable.kind with
    | .array items => .known items.length
    | _ => .unknown

def foreachMessage? (max : Nat) (iterable : Expr) : Option String :=
  match sizeOf typeOf iterable with
  | .known n =>
    if max < n then
      some ("Foreach loop iterates over " ++ toString n
        ++ " items, which exceeds the configured maximum of " ++ toString max ++ " iterations.")
    else none
  | .finite => none
  | .unknown =>
    some "Foreach loop must iterate over a countable collection with a verifiable size bound."

/-- What to say about a loop; an error if the statement is none. -/
def message? (max : Nat) (s : Stmt) : Except RuleError (Option String) :=
  match s.kind with
  | .forLoop _ condition step _ => .ok (forMessage? typeOf max condition step)
  | .whileLoop condition _ => .ok (some (whileMessage condition))
  | .doWhile condition _ => .ok (some (whileMessage condition))
  | .foreach iterable _ _ _ => .ok (foreachMessage? typeOf max iterable)
  | kind => .error (.malformedNode kind.nodeKind s.span.firstLine "loop node without loop payload")

def check (settings : Settings) (site : Site) (c : Context) : Outcome × Context :=
  match site.node with
  | .stmt s =>
    ((message? typeOf settings.maxLoopIterations s).map fun message =>
      message.toList.map (c.finding info site.node.line), c)
  | _ => (.ok [], c)

end

end LoopBounds

/-- Every loop has a fixed bound, as far as the answered types tell. -/
def loopBoundsBy (typeOf : Tree.TypeOracle) : Rule where
  toRuleInfo := LoopBounds.info
  kinds := [.forLoop, .whileLoop, .doWhile, .foreach]
  check := LoopBounds.check typeOf
  finish := Rule.silent

/-- Every loop has a fixed bound, as far as the annotations of the tree tell. -/
def loopBounds : Rule := loopBoundsBy Tree.Expr.type

end Rules
end SafetyLint
