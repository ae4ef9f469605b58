import SafetyLint.Proofs.Confinement
import SafetyLint.Proofs.Preorder

/-!
# Walks, stop by stop

A stop is a site with the nodes above it.  The scopes that are open at a stop can be read off these
nodes, so the only thing that a walk really carries from node to node is the slots.
`Dispatcher.round` is what is left of a walk then: it goes through a list of stops and asks the
rules at each of them, in the context that the stop and the slots make up.

`amounts_visit` and `visit_file` say that a visit is such a round over the stops below it, in
pre-order, and that leaving adds nothing except at the end of a file.  So what holds of walks is
proved by going through a list.
-/

namespace SafetyLint

open SafetyLint.Tree Config

/-! ## Stops -/

namespace Tree

namespace Node

/-- The function that a node opens. -/
def functionScope? : Node → Option FunctionScope
  | function d => some ⟨d, .function⟩
  | method d => some ⟨d, .method⟩
  | _ => none

/-- The class that a node opens. -/
def openClass? : Node → Option ClassDecl
  | classDecl d => some d
  | _ => none

def isFile : Node → Bool
  | file _ => true
  | _ => false

theorem isFile_ofStmt (s : Stmt) : (ofStmt s).isFile = false := by
  obtain ⟨span, kind, comments⟩ := s
  cases kind <;> rfl

/-! A file is never below anything.  The lemmas follow the parts of which `children` is made. -/

/-- None of the nodes is a file. -/
def NoFiles (ns : List Node) : Prop := ∀ n ∈ ns, n.isFile = false

@[simp] theorem noFiles_nil : NoFiles [] := fun _ h => absurd h List.not_mem_nil

@[simp] theorem noFiles_cons {n : Node} {ns : List Node} :
    NoFiles (n :: ns) ↔ n.isFile = false ∧ NoFiles ns :=
  List.forall_mem_cons

@[simp] theorem noFiles_append {ns ms : List Node} :
    NoFiles (ns ++ ms) ↔ NoFiles ns ∧ NoFiles ms :=
  List.forall_mem_append

theorem noFiles_flatMap {α : Type} {parts : α → List Node} (h : ∀ a, NoFiles (parts a))
    (as : List α) : NoFiles (as.flatMap parts) := by
  intro n hn
  obtain ⟨a, -, ha⟩ := List.mem_flatMap.mp hn
  exact h a n ha

@[simp] theorem noFiles_ofStmts (body : List Stmt) : NoFiles (ofStmts body) := by
  intro n hn
  obtain ⟨s, -, rfl⟩ := List.mem_map.mp hn
  exact isFile_ofStmt s

@[simp] theorem noFiles_ofExprs (es : List Expr) : NoFiles (ofExprs es) := by
  intro n hn
  obtain ⟨e, -, rfl⟩ := List.mem_map.mp hn
  rfl

@[simp] theorem noFiles_params (ps : List Param) : NoFiles (ps.map param) := by
  intro n hn
  obtain ⟨p, -, rfl⟩ := List.mem_map.mp hn
  rfl

@[simp] theorem noFiles_ofExpr? (e : Option Expr) : NoFiles (ofExpr? e) := noFiles_ofExprs _

@[simp] theorem noFiles_ofStmts? (body : Option (List Stmt)) : NoFiles (ofStmts? body) :=
  noFiles_ofStmts _

@[simp] theorem noFiles_ofClassRef (r : ClassRef) : NoFiles (ofClassRef r) := by
  cases r <;> simp [ofClassRef, isFile]

@[simp] theorem noFiles_ofCallee (c : Callee) : NoFiles (ofCallee c) := by
  cases c <;> simp [ofCallee, isFile]

@[simp] theorem noFiles_members (ms : List Member) : NoFiles (ms.flatMap ofMember) :=
  noFiles_flatMap (fun m => by cases m <;> simp [ofMember, isFile]) ms

@[simp] theorem noFiles_elseIfs (bs : List ElseIf) : NoFiles (bs.flatMap ofElseIf) :=
  noFiles_flatMap (fun b => by simp [ofElseIf, isFile]) bs

@[simp] theorem noFiles_cases (cs : List Case) : NoFiles (cs.flatMap ofCase) :=
  noFiles_flatMap (fun c => by simp [ofCase]) cs

@[simp] theorem noFiles_catches (cs : List Catch) : NoFiles (cs.flatMap ofCatch) :=
  noFiles_flatMap (fun c => by simp [ofCatch]) cs

@[simp] theorem noFiles_items (is : List ArrayItem) : NoFiles (is.flatMap ofItem) :=
  noFiles_flatMap (fun i => by simp [ofItem, isFile]) is

theorem noFiles_children (n : Node) : NoFiles n.children := by
  cases n with
  | stmt s =>
    obtain ⟨span, kind, comments⟩ := s
    cases kind <;> simp [children, ofStmtKind, isFile]
  | expr e =>
    obtain ⟨span, kind, type⟩ := e
    cases kind <;> simp [children, ofExprKind, isFile]
  | _ => simp [children]

end Node

theorem Site.isFile_of_mem_children {site child : Site} (h : child ∈ site.children) :
    child.node.isFile = false := by
  refine Node.noFiles_children site.node child.node ?_
  rw [← Site.map_node_children]
  exact List.mem_map_of_mem h

/-- A site and the nodes above it, nearest first. -/
structure Stop where
  site : Site
  above : List Node

namespace Stop

/-- The stop at a whole file. -/
def ofFile (i : Nat) (f : SourceFile) : Stop := ⟨.ofFile i f, []⟩

def children (s : Stop) : List Stop := s.site.children.map fun c => ⟨c, s.site.node :: s.above⟩

theorem map_site_children (s : Stop) : s.children.map Stop.site = s.site.children := by
  rw [children, List.map_map]
  exact List.map_id _

theorem above_of_mem_children {s t : Stop} (h : t ∈ s.children) :
    t.above = s.site.node :: s.above := by
  obtain ⟨c, -, rfl⟩ := List.mem_map.mp h
  rfl

/-- No child stands at a file. -/
theorem isFile_of_mem_children {s t : Stop} (h : t ∈ s.children) :
    t.site.node.isFile = false := by
  obtain ⟨c, hc, rfl⟩ := List.mem_map.mp h
  exact Site.isFile_of_mem_children hc

end Stop

instance : Walk.Branching Stop where
  children := Stop.children
  exists_weight := by
    refine ⟨fun s => Walk.weight s.site, fun s => ?_⟩
    have h := Walk.total_weight_children_lt s.site
    rwa [← show s.children.map Stop.site = Walk.Branching.children s.site from
      s.map_site_children, total_map] at h

namespace Stop

/-- The stops below a stop stand at the sites below its site. -/
theorem map_site_preorder (s : Stop) : (Walk.preorder s).map Stop.site = Walk.preorder s.site :=
  Walk.map_preorder Stop.site map_site_children s

theorem map_node_preorder (s : Stop) :
    (Walk.preorder s).map (fun t => t.site.node) = Walk.preorder s.site.node := by
  have hbelow := Walk.map_preorder Site.node Site.map_node_children s.site
  rw [← s.map_site_preorder, List.map_map] at hbelow
  exact hbelow

theorem preorder_cons (s : Stop) :
    Walk.preorder s = s :: s.children.flatMap Walk.preorder :=
  Walk.preorder_cons s

/-- The scopes that some nodes open, in their order. -/
def functionsOf (nodes : List Node) : List FunctionScope := nodes.filterMap Node.functionScope?

def classesOf (nodes : List Node) : List ClassDecl := nodes.filterMap Node.openClass?

/-- The context in which the rules are asked at a stop. -/
def context (s : Stop) (file : Option OpenFile) (slots : List (RuleId × Slot)) : Context :=
  ⟨file, functionsOf (s.site.node :: s.above), classesOf (s.site.node :: s.above), slots⟩

/-- The context in which a walk comes to a stop. -/
def arrival (s : Stop) (file : Option OpenFile) (slots : List (RuleId × Slot)) : Context :=
  ⟨file, functionsOf s.above, classesOf s.above, slots⟩

end Stop

end Tree

/-! ## Rounds -/

namespace Dispatcher

/-- Asks the rules at each of some stops, one after the other: the findings of each stop, and the
slots at the end. -/
def round (d : Dispatcher) (file : Option OpenFile) :
    List Stop → List (RuleId × Slot) → List (Stop × List Finding) × List (RuleId × Slot)
  | [], slots => ([], slots)
  | s :: rest, slots =>
    let (findings, c) := d.dispatch s.site (s.context file slots)
    let (later, slots) := d.round file rest c.slots
    ((s, findings) :: later, slots)

variable (d : Dispatcher)

theorem round_cons (file : Option OpenFile) (s : Stop) (rest : List Stop)
    (slots : List (RuleId × Slot)) :
    d.round file (s :: rest) slots =
      ((s, (d.dispatch s.site (s.context file slots)).1) ::
          (d.round file rest (d.dispatch s.site (s.context file slots)).2.slots).1,
        (d.round file rest (d.dispatch s.site (s.context file slots)).2.slots).2) := rfl

theorem round_append (file : Option OpenFile) (before after : List Stop)
    (slots : List (RuleId × Slot)) :
    d.round file (before ++ after) slots =
      ((d.round file before slots).1 ++ (d.round file after (d.round file before slots).2).1,
        (d.round file after (d.round file before slots).2).2) := by
  induction before generalizing slots with
  | nil => rfl
  | cons s rest ih => rw [List.cons_append, round_cons, ih, round_cons, List.cons_append]

/-- Where nothing is remembered, the rules answer at each stop for itself. -/
theorem round_of_stateless (hd : ∀ site c, (d.dispatch site c).2 = c) (file : Option OpenFile)
    (stops : List Stop) (slots : List (RuleId × Slot)) :
    d.round file stops slots =
      (stops.map fun s => (s, (d.dispatch s.site (s.context file slots)).1), slots) := by
  induction stops with
  | nil => rfl
  | cons s rest ih =>
    have hslots : (d.dispatch s.site (s.context file slots)).2.slots = slots :=
      congrArg Context.slots (hd s.site (s.context file slots))
    rw [round_cons, hslots, ih, List.map_cons]

/-- The rules of the dispatcher write nothing but slots. -/
def KeepsScopes : Prop :=
  ∀ site c, (d.dispatch site c).2 = { c with slots := (d.dispatch site c).2.slots }

end Dispatcher

/-- A finding together with the site at which it was made. -/
abbrev Sighting := Site × Finding

namespace Event

def site : Event → Site
  | asked _ s _ _ => s
  | left _ s _ => s

/-- The findings of an event with their site. -/
def sightings (e : Event) : List Sighting := e.findings.map fun f => (e.site, f)

end Event

/-- The findings of a round with their sites. -/
def roundSightings (answers : List (Stop × List Finding)) : List Sighting :=
  answers.flatMap fun a => a.2.map fun f => (a.1.site, f)

/-! ## Visits are rounds -/

namespace Dispatcher

section VisitList

variable {α β : Type}

theorem visitList_cons (visitOne : α → Context → List Event × Context) (a : α) (rest : List α)
    (c : Context) :
    visitList visitOne (a :: rest) c =
      ((visitOne a c).1 ++ (visitList visitOne rest (visitOne a c).2).1,
        (visitList visitOne rest (visitOne a c).2).2) := rfl

theorem visitList_map (visitOne : β → Context → List Event × Context) (f : α → β) (as : List α)
    (c : Context) :
    visitList visitOne (as.map f) c = visitList (fun a => visitOne (f a)) as c := by
  induction as generalizing c with
  | nil => rfl
  | cons a rest ih => rw [List.map_cons, visitList_cons, visitList_cons, ih]

theorem visitList_attach (visitOne : α → Context → List Event × Context) (as : List α)
    (c : Context) :
    visitList (fun (a : { a : α // a ∈ as }) c => visitOne a.1 c) as.attach c =
      visitList visitOne as c := by
  rw [← visitList_map visitOne Subtype.val as.attach c, List.attach_map_subtype_val]

end VisitList

variable {d : Dispatcher}

/-- A visit: asking, the children, leaving. -/
theorem visit_eq (depth : Nat) (site : Site) (c : Context) :
    d.visit depth site c =
      (.asked depth site (d.dispatch site (enter site c)).2 (d.dispatch site (enter site c)).1 ::
          (visitList (d.visit (depth + 1)) site.children
            (d.dispatch site (enter site c)).2).1 ++
        [.left depth site (d.leave site (visitList (d.visit (depth + 1)) site.children
          (d.dispatch site (enter site c)).2).2).1],
        (d.leave site (visitList (d.visit (depth + 1)) site.children
          (d.dispatch site (enter site c)).2).2).2) := by
  rw [visit, ← visitList_attach (d.visit (depth + 1))]

/-- Entering a node that is no file only opens scopes. -/
theorem enter_keeps {s : Site} (hs : s.node.isFile = false) (c : Context) :
    (enter s c).file = c.file ∧ (enter s c).slots = c.slots := by
  obtain ⟨place, node⟩ := s
  cases node with
  | file f => exact absurd hs (by simp [Node.isFile])
  | _ => exact ⟨rfl, rfl⟩

/-- Leaving a node that is no file only closes scopes. -/
theorem leave_keeps {s : Site} (hs : s.node.isFile = false) (c : Context) :
    (d.leave s c).1 = [] ∧ (d.leave s c).2.file = c.file ∧ (d.leave s c).2.slots = c.slots := by
  obtain ⟨place, node⟩ := s
  cases node with
  | file f => exact absurd hs (by simp [Node.isFile])
  | _ => exact ⟨rfl, rfl, rfl⟩

/-- Leaving a file asks the rules for their last words. -/
theorem exists_leave_eq_ask {s : Site} (hs : s.node.isFile = true) :
    ∃ line, d.leave s = ask d.settings line (fun rule c => rule.finish d.settings c)
      (d.rules.filter fun r => d.settings.isActive r.id) := by
  obtain ⟨place, node⟩ := s
  cases node with
  | file f => exact ⟨f.span.lastLine, rfl⟩
  | _ => exact absurd hs Bool.false_ne_true

theorem enter_of_not_isFile {s : Stop} (hs : s.site.node.isFile = false)
    (file : Option OpenFile) (slots : List (RuleId × Slot)) :
    enter s.site (s.arrival file slots) = s.context file slots := by
  obtain ⟨⟨place, node⟩, above⟩ := s
  cases node with
  | file f => exact absurd hs (by simp [Node.isFile])
  | _ => rfl

theorem leave_of_not_isFile {s : Stop} (hs : s.site.node.isFile = false)
    (file : Option OpenFile) (slots : List (RuleId × Slot)) :
    d.leave s.site (s.context file slots) = ([], s.arrival file slots) := by
  obtain ⟨⟨place, node⟩, above⟩ := s
  cases node with
  | file f => exact absurd hs (by simp [Node.isFile])
  | _ => rfl

/-- The outcome of a visit amounts to that of a round: the same findings at the same sites, and the
context that `context` makes of the slots. -/
def Amounts (context : List (RuleId × Slot) → Context) (visited : List Event × Context)
    (rounded : List (Stop × List Finding) × List (RuleId × Slot)) : Prop :=
  visited.1.flatMap Event.sightings = roundSightings rounded.1 ∧ visited.2 = context rounded.2

/-- Stops below one node that are visited in a row. -/
theorem amounts_visitList {file : Option OpenFile} {s : Stop} {stops : List Stop}
    (habove : ∀ t ∈ stops, t.above = s.site.node :: s.above) {depth : Nat}
    (hvisit : ∀ t ∈ stops, ∀ slots, Amounts (t.arrival file)
      (d.visit depth t.site (t.arrival file slots)) (d.round file (Walk.preorder t) slots))
    (slots : List (RuleId × Slot)) :
    Amounts (s.context file)
      (visitList (d.visit depth) (stops.map Stop.site) (s.context file slots))
      (d.round file (stops.flatMap Walk.preorder) slots) := by
  induction stops generalizing slots with
  | nil => exact ⟨rfl, rfl⟩
  | cons t rest ih =>
    have harrival : t.arrival file = s.context file := by
      funext slots
      rw [Stop.context, Stop.arrival, habove t (List.mem_cons_self ..)]
    have hfirst := hvisit t (List.mem_cons_self ..) slots
    have hlater := ih (fun u hu => habove u (List.mem_cons_of_mem _ hu))
      (fun u hu => hvisit u (List.mem_cons_of_mem _ hu)) (d.round file (Walk.preorder t) slots).2
    rw [harrival] at hfirst
    rw [List.map_cons, visitList_cons, List.flatMap_cons, round_append, hfirst.2]
    refine ⟨?_, hlater.2⟩
    rw [List.flatMap_append, hfirst.1, hlater.1, roundSightings, roundSightings, roundSightings,
      List.flatMap_append]

/-- A visit from a context that entering brings in step, when the children are visited as a round
over the stops below them: only what leaving adds is left over. -/
theorem visit_of_enter (hd : d.KeepsScopes) {file : Option OpenFile} {s : Stop} {depth : Nat}
    {c : Context} {slots : List (RuleId × Slot)} (henter : enter s.site c = s.context file slots)
    (hvisit : ∀ t ∈ s.children, ∀ slots, Amounts (t.arrival file)
      (d.visit (depth + 1) t.site (t.arrival file slots))
      (d.round file (Walk.preorder t) slots)) :
    (d.visit depth s.site c).1.flatMap Event.sightings =
        roundSightings (d.round file (Walk.preorder s) slots).1 ++
          (d.leave s.site (s.context file (d.round file (Walk.preorder s) slots).2)).1.map
            (fun f => (s.site, f)) ∧
      (d.visit depth s.site c).2 =
        (d.leave s.site (s.context file (d.round file (Walk.preorder s) slots).2)).2 := by
  have hbelow : Amounts (s.context file)
      (visitList (d.visit (depth + 1)) s.site.children
        (d.dispatch s.site (s.context file slots)).2)
      (d.round file (s.children.flatMap Walk.preorder)
        (d.dispatch s.site (s.context file slots)).2.slots) := by
    rw [← s.map_site_children, hd s.site (s.context file slots)]
    exact amounts_visitList (fun t ht => Stop.above_of_mem_children ht) hvisit _
  rw [visit_eq, henter, Stop.preorder_cons, round_cons, hbelow.2]
  refine ⟨?_, rfl⟩
  rw [List.flatMap_append, List.flatMap_cons, hbelow.1, List.flatMap_singleton]
  rfl

/-- Below a file, a visit is a round over the stops in pre-order and leaves the scopes as it found
them. -/
theorem amounts_visit (hd : d.KeepsScopes) (file : Option OpenFile) (s : Stop)
    (hs : s.site.node.isFile = false) (depth : Nat) (slots : List (RuleId × Slot)) :
    Amounts (s.arrival file) (d.visit depth s.site (s.arrival file slots))
      (d.round file (Walk.preorder s) slots) := by
  induction s using Walk.induct generalizing depth slots with
  | step s ih =>
    have hvisit := visit_of_enter hd (enter_of_not_isFile hs file slots)
      (fun t ht slots => ih t ht (Stop.isFile_of_mem_children ht) (depth + 1) slots)
    rw [leave_of_not_isFile hs, List.map_nil, List.append_nil] at hvisit
    exact hvisit

theorem enter_ofFile (i : Nat) (f : SourceFile) (root : Option String) :
    enter (.ofFile i f) (Context.empty.enterFile (.ofFile i f root)) =
      (Stop.ofFile i f).context (some (.ofFile i f root)) [] := by
  have hsame : (OpenFile.ofFile i f root).isFile i f.path = true := by
    simp [OpenFile.isFile, OpenFile.ofFile]
  show (if (OpenFile.ofFile i f root).isFile i f.path = true then _ else _) = _
  rw [if_pos hsame]
  rfl

/-- The round over all stops of a file. -/
def fileRound (d : Dispatcher) (i : Nat) (f : SourceFile) (root : Option String) :
    List (Stop × List Finding) × List (RuleId × Slot) :=
  d.round (some (.ofFile i f root)) (Walk.preorder (.ofFile i f)) []

/-- The context at the end of a file, before the rules have their last word. -/
def fileEnd (d : Dispatcher) (i : Nat) (f : SourceFile) (root : Option String) : Context :=
  (Stop.ofFile i f).context (some (.ofFile i f root)) (d.fileRound i f root).2

/-- The walk of a file is a round over its stops in pre-order, followed by the last word of the
rules. -/
theorem visit_file (hd : d.KeepsScopes) (i : Nat) (f : SourceFile) (root : Option String) :
    (d.visit 0 (.ofFile i f) (Context.empty.enterFile (.ofFile i f root))).1.flatMap
          Event.sightings =
        roundSightings (d.fileRound i f root).1 ++
          (d.leave (.ofFile i f) (d.fileEnd i f root)).1.map
            (fun finding => (.ofFile i f, finding)) ∧
      (d.visit 0 (.ofFile i f) (Context.empty.enterFile (.ofFile i f root))).2 =
        (d.leave (.ofFile i f) (d.fileEnd i f root)).2 :=
  visit_of_enter (s := Stop.ofFile i f) hd (enter_ofFile i f root) fun t ht slots =>
    amounts_visit hd _ t (Stop.isFile_of_mem_children ht) _ slots

/-! ## Walks of the nine rules -/

/-- The nine rules, registered in any order and any number, write nothing but slots. -/
theorem keepsScopes_dispatcher (ids : List RuleId) (settings : Settings) :
    (Rules.dispatcher ids settings).KeepsScopes := by
  intro site c
  rw [dispatch_dispatcher]
  exact ask_keeps (Rules.confined_check settings site) _ c

end Dispatcher

/-- The analyzer in which rules are registered in the order of a list. -/
def Rules.analyzer (ids : List RuleId) (settings : Settings) (root : Option String) : Analyzer :=
  ⟨dispatcher ids settings, root⟩

namespace Analyzer

open Dispatcher

theorem map_snd_flatMap_sightings (events : List Event) :
    (events.flatMap Event.sightings).map Prod.snd = events.flatMap Event.findings := by
  rw [List.map_flatMap]
  refine List.flatMap_congr fun e _ => ?_
  rw [Event.sightings, List.map_map]
  exact List.map_id _

theorem map_snd_roundSightings (answers : List (Stop × List Finding)) :
    (roundSightings answers).map Prod.snd = answers.flatMap Prod.snd := by
  rw [roundSightings, List.map_flatMap]
  refine List.flatMap_congr fun a _ => ?_
  rw [List.map_map]
  exact List.map_id _

/-- What is found in a file: the findings of a round over its stops, then the last word of the
rules. -/
theorem walkFile_eq (ids : List RuleId) (settings : Settings) (root : Option String) (i : Nat)
    (f : SourceFile) :
    (Rules.analyzer ids settings root).walkFile i f =
      ((Rules.dispatcher ids settings).fileRound i f root).1.flatMap Prod.snd ++
        ((Rules.dispatcher ids settings).leave (.ofFile i f)
          ((Rules.dispatcher ids settings).fileEnd i f root)).1 := by
  have hvisit := (visit_file (keepsScopes_dispatcher ids settings) i f root).1
  rw [walkFile, ← map_snd_flatMap_sightings]
  show List.map Prod.snd (((Rules.dispatcher ids settings).visit 0 (.ofFile i f)
    (Context.empty.enterFile (.ofFile i f root))).1.flatMap Event.sightings) = _
  rw [hvisit, List.map_append, map_snd_roundSightings, List.map_map]
  exact congrArg (_ ++ ·) (List.map_id _)

end Analyzer

end SafetyLint
