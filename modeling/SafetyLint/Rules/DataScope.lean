import SafetyLint.Engine.Rule

/-!
# Restricted data scope

Four checks keep data close to where it is used.  A class may hold only so many properties; its
public properties have to be on an allow list; so have the names in a `global` statement; and a
local variable has to be read soon after it is first assigned.

A property may also be declared by a constructor parameter.  An assignment to a variable is not a
read of it, so the variables that stand to the left of an assignment are told apart by their place.
-/

namespace SafetyLint
namespace Rules
namespace DataScope

open SafetyLint.Tree Config Text

def info : RuleInfo where
  id := .restrictDataScope
  name := "restrict-data-scope"
  description := "Restrict the scope of data to the smallest possible."
  severity := .error

/-! ## Classes -/

/-- A property of an object, with who may see it. -/
abbrev Property := String × Visibility

/-- The properties that a member declares. -/
def propertiesOf : Member → List Property
  | .property d => if d.isStatic then [] else d.names.map fun name => (name, d.visibility)
  | .method d =>
    if sameLetters d.name "__construct" then
      d.params.filterMap fun p => p.promoted.map fun v => (p.name, v)
    else []
  | _ => []

/-- The name of a class in a message. -/
def className (d : ClassDecl) : String := d.name.getD "class@anonymous"

def classMessages (settings : Settings) (d : ClassDecl) : List String :=
  let properties := d.members.flatMap propertiesOf
  let tooMany :=
    if settings.maxClassProperties < properties.length then
      ["Class \"" ++ className d ++ "\" has " ++ toString properties.length
        ++ " properties, but the maximum allowed is " ++ toString settings.maxClassProperties
        ++ "."]
    else []
  let exposed := properties.filter fun p =>
    p.2 = .pub && !settings.allowedPublicProperties.allows p.1
  tooMany ++ exposed.map fun p =>
    "Public property \"" ++ p.1 ++ "\" in class \"" ++ className d
      ++ "\" violates data scope restriction. Consider making it private or protected."

/-! ## Globals -/

def globalMessages (settings : Settings) (names : List String) : List String :=
  (names.filter fun name => !settings.allowedGlobals.allows name).map fun name =>
    "Global variable \"$" ++ name ++ "\" detected. Global variables should be avoided."

/-! ## First uses -/

/-- The name of a local variable. -/
def plainVar? (e : Expr) : Option String :=
  match e.kind with
  | .var name => if name = "this" then none else some name
  | _ => none

/-- The name and the line of an assignment to a variable. -/
def assignment? (s : Site) : Option (String × Nat) :=
  match s.node with
  | .expr e =>
    match e.kind with
    | .assign target _ => (plainVar? target).map fun name => (name, e.span.firstLine)
    | _ => none
  | _ => none

/-- The place of the target of an assignment. -/
def targetPlace? (s : Site) : Option Place :=
  match s.node with
  | .expr e =>
    match e.kind with
    | .assign _ _ => some (s.place.child 0)
    | _ => none
  | _ => none

/-- The name and the line of a variable that is read, when `targets` are the places that are
assigned to. -/
def read? (targets : List Place) (s : Site) : Option (String × Nat) :=
  if targets.contains s.place then none
  else
    match s.node with
    | .expr e => (plainVar? e).map fun name => (name, e.span.firstLine)
    | _ => none

/-- The first pair for each name. -/
def firsts : List (String × Nat) → List (String × Nat)
  | [] => []
  | p :: rest => p :: (firsts rest).filter fun q => q.1 ≠ p.1

/-- The least number that goes with a name. -/
def least? (name : String) (pairs : List (String × Nat)) : Option Nat :=
  ((pairs.filter fun p => p.1 = name).map Prod.snd).min?

/-- A variable with the line of its first assignment and the first line where it is read. -/
structure FirstUse where
  name : String
  assigned : Nat
  used : Nat

/-- The variables that are both assigned and read below a site, in the order of their first
assignments. -/
def firstUses (root : Site) : List FirstUse :=
  let sites := Walk.collect (Site.isOf [.assign, .var]) root
  let targets := sites.filterMap targetPlace?
  let reads := sites.filterMap (read? targets)
  (firsts (sites.filterMap assignment?)).filterMap fun p =>
    (least? p.1 reads).map fun used => ⟨p.1, p.2, used⟩

/-- The variable is read too late. -/
def isLate (settings : Settings) (u : FirstUse) : Bool :=
  u.assigned ≤ u.used && settings.maxLinesToFirstUse < u.used - u.assigned

def lateMessage (settings : Settings) (decl : FunctionDecl) (u : FirstUse) : String :=
  "Variable \"$" ++ u.name ++ "\" in " ++ decl.name ++ " is initialized "
    ++ toString (u.used - u.assigned) ++ " lines before its first use (line " ++ toString u.assigned
    ++ " to " ++ toString u.used ++ "). Maximum allowed is "
    ++ toString settings.maxLinesToFirstUse ++ " lines."

def lateFindings (settings : Settings) (site : Site) (c : Context) (decl : FunctionDecl) :
    List Finding :=
  if decl.body.isNone then []
  else
    ((firstUses site).filter (isLate settings)).map fun u =>
      c.finding info u.assigned (lateMessage settings decl u)

/-! ## The rule -/

def findings (settings : Settings) (site : Site) (c : Context) : List Finding :=
  match site.node with
  | .classDecl d => (classMessages settings d).map (c.finding info site.node.line)
  | .function decl => lateFindings settings site c decl
  | .method decl => lateFindings settings site c decl
  | .stmt s =>
    match s.kind with
    | .global names => (globalMessages settings names).map (c.finding info site.node.line)
    | _ => []
  | _ => []

end DataScope

/-- Data is visible only where it is needed. -/
def dataScope : Rule where
  toRuleInfo := DataScope.info
  kinds := [.classDecl, .global, .function, .method]
  check := Rule.plain DataScope.findings
  finish := Rule.silent

end Rules
end SafetyLint
