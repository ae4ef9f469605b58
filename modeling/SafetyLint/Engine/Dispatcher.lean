import SafetyLint.Engine.Rule

/-!
# Dispatch

A dispatcher has the registered rules and a table that lists, for each kind of node, the numbers of
the rules to ask.  Around every node it keeps the context in step: entering opens scopes, leaving
closes them, and leaving a file asks every active rule for its last word.

A rule that fails costs one finding, which stands for the failure; all other rules are asked as
usual.
-/

namespace SafetyLint

open SafetyLint.Tree Config

/-- For each kind of node, numbers of rules in the order of their registration. -/
abbrev RouteTable := List (NodeKind × List Nat)

namespace RouteTable

/-- The numbers under a kind. -/
def get (table : RouteTable) (kind : NodeKind) : List Nat := (table.lookup kind).getD []

/-- Adds a number behind those of a kind. -/
def add (number : Nat) (kind : NodeKind) : RouteTable → RouteTable
  | [] => [(kind, [number])]
  | (k, numbers) :: rest =>
    if k = kind then (k, numbers ++ [number]) :: rest else (k, numbers) :: add number kind rest

/-- Adds the number of a rule under each of its kinds. -/
def register (table : RouteTable) (entry : Rule × Nat) : RouteTable :=
  entry.1.kinds.foldl (fun table kind => table.add entry.2 kind) table

end RouteTable

/-- Registered rules, and which of them to ask about nodes of a kind. -/
structure Routes where
  rules : List Rule
  table : RouteTable

/-- The rules to ask about nodes of this kind. -/
def Routes.get (routes : Routes) (kind : NodeKind) : List Rule :=
  (routes.table.get kind).filterMap fun number => routes.rules[number]?

/-- Rules, settings, and the table of active rules by kind of node. -/
structure Dispatcher where
  rules : List Rule
  settings : Settings
  table : RouteTable

namespace Dispatcher

/-- The dispatcher of some rules; inactive rules get no routes. -/
def build (rules : List Rule) (settings : Settings) : Dispatcher where
  rules := rules
  settings := settings
  table := (rules.zipIdx.filter fun entry => settings.isActive entry.1.id).foldl
    RouteTable.register []

/-- The way from the kinds of nodes to the rules. -/
def routes (d : Dispatcher) : Routes := ⟨d.rules, d.table⟩

/-- Number of registered rules that are active. -/
def activeCount (d : Dispatcher) : Nat := d.rules.countP fun r => d.settings.isActive r.id

/-- Brings the context in step before a node is looked at.  A file that is already open keeps the
path under which it is reported. -/
def enter (site : Site) (c : Context) : Context :=
  match site.node with
  | .file f =>
    if c.file.any fun o => o.isFile site.place.file f.path then c.clear
    else c.enterFile (.ofFile site.place.file f none)
  | .classDecl d => c.pushClass d
  | .function d => c.pushFunction d .function
  | .method d => c.pushFunction d .method
  | _ => c

/-- The findings of an outcome: with the severity that the settings ask for, or the one finding that
stands for the failure. -/
def settle (settings : Settings) (rule : RuleInfo) (line : Nat) (c : Context) :
    Outcome → List Finding
  | .ok findings =>
    match settings.severity? rule.id with
    | some severity => findings.map fun f => { f with severity }
    | none => findings
  | .error e => [.failure rule.name (c.location line) (e.report rule.id)]

/-- Asks rules one after the other, each in the context that the one before left. -/
def ask (settings : Settings) (line : Nat) (question : Rule → Context → Outcome × Context) :
    List Rule → Context → List Finding × Context
  | [], c => ([], c)
  | rule :: rest, c =>
    let (outcome, c) := question rule c
    let here := settle settings rule.toRuleInfo line c outcome
    let (later, c) := ask settings line question rest c
    (here ++ later, c)

/-- Asks the active rules that want to see the node. -/
def dispatch (d : Dispatcher) (site : Site) (c : Context) : List Finding × Context :=
  ask d.settings site.node.line (fun rule c => rule.check d.settings site c)
    (d.routes.get site.node.kind) c

/-- Brings the context in step after a node; at the end of a file the active rules are asked for
their last word. -/
def leave (d : Dispatcher) (site : Site) (c : Context) : List Finding × Context :=
  match site.node with
  | .classDecl _ => ([], c.popClass)
  | .function _ => ([], c.popFunction)
  | .method _ => ([], c.popFunction)
  | .file f =>
    ask d.settings f.span.lastLine (fun rule c => rule.finish d.settings c)
      (d.rules.filter fun r => d.settings.isActive r.id) c
  | _ => ([], c)

end Dispatcher

end SafetyLint
