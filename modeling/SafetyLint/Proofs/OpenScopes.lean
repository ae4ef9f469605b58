import SafetyLint.Config.Basic
import SafetyLint.Proofs.Stops
import SafetyLint.Tree.Build

/-!
# Open scopes

Scopes are opened when a node is entered and closed when it is left, and between the two the rules
are asked about the node and everything below it is visited.  This module says that nothing gets
out of step on the way.

* `sameScopes_visit`: the visit of anything but a file leaves the open scopes as it found them,
  from whatever context it starts.
* `Dispatcher.moments` lists the moments of a visit at which the rules are asked, with the context
  in which they are asked; `filter_isAsked_visit` says that these are the questions of the visit.
* `scopes_moments`: at each of these moments the open scopes are the functions and classes on the
  way from the root down to the node.

A file closes whatever was left open before it, so a walk may start in any context.
-/

namespace SafetyLint

open SafetyLint.Tree Config

/-! ## Where methods stand -/

namespace Tree

namespace Node

theorem ofStmt_ne_method (s : Stmt) (d : FunctionDecl) : ofStmt s ≠ method d := by
  obtain ⟨span, kind, comments⟩ := s
  cases kind <;> exact fun h => by cases h

theorem method_notMem_ofStmts (d : FunctionDecl) (body : List Stmt) : method d ∉ ofStmts body := by
  intro h
  obtain ⟨s, -, hs⟩ := List.mem_map.mp h
  exact ofStmt_ne_method s d hs

theorem method_notMem_ofExprs (d : FunctionDecl) (es : List Expr) : method d ∉ ofExprs es := by
  intro h
  obtain ⟨e, -, he⟩ := List.mem_map.mp h
  cases he

theorem method_notMem_ofClassRef (d : FunctionDecl) (r : ClassRef) : method d ∉ ofClassRef r := by
  cases r <;> simp [ofClassRef]

theorem method_notMem_ofCallee (d : FunctionDecl) (c : Callee) : method d ∉ ofCallee c := by
  cases c <;> simp [ofCallee]

/-- A method stands directly below a class and nowhere else. -/
theorem exists_eq_classDecl_of_method_mem {n : Node} {d : FunctionDecl}
    (h : method d ∈ n.children) : ∃ owner, n = classDecl owner := by
  cases n with
  | classDecl owner => exact ⟨owner, rfl⟩
  | stmt s =>
    obtain ⟨span, kind, comments⟩ := s
    cases kind <;>
      simp [children, ofStmtKind, ofStmts?, ofExpr?, ofElseIf, ofCase, ofCatch,
        method_notMem_ofStmts, method_notMem_ofExprs] at h
  | expr e =>
    obtain ⟨span, kind, type⟩ := e
    cases kind <;>
      simp [children, ofExprKind, ofExpr?, ofItem, method_notMem_ofStmts, method_notMem_ofExprs,
        method_notMem_ofClassRef, method_notMem_ofCallee] at h
  | _ =>
    simp [children, ofStmts?, ofExpr?, method_notMem_ofStmts, method_notMem_ofExprs] at h

end Node

namespace Stop

/-- The nodes on the way from the root down to the stop, both ends included. -/
def path (s : Stop) : List Node := (s.site.node :: s.above).reverse

theorem reverse_functionsOf (s : Stop) :
    (functionsOf (s.site.node :: s.above)).reverse = s.path.filterMap Node.functionScope? := by
  rw [functionsOf, path, List.filterMap_reverse]

theorem reverse_classesOf (s : Stop) :
    (classesOf (s.site.node :: s.above)).reverse = s.path.filterMap Node.openClass? := by
  rw [classesOf, path, List.filterMap_reverse]

/-- On the way to a method there is a class. -/
theorem classes_ne_nil_of_method {i : Nat} {f : SourceFile} {s : Stop} {d : FunctionDecl}
    (hs : s ∈ Walk.preorder (ofFile i f)) (hd : s.site.node = .method d) :
    s.path.filterMap Node.openClass? ≠ [] := by
  rcases Walk.exists_parent_of_mem_preorder hs with rfl | ⟨p, -, hchild⟩
  · cases hd
  · have hmem : Node.method d ∈ p.site.node.children := by
      rw [← hd, ← Site.map_node_children, ← map_site_children, List.map_map]
      exact List.mem_map_of_mem hchild
    obtain ⟨owner, howner⟩ := Node.exists_eq_classDecl_of_method_mem hmem
    have hopen : owner ∈ s.path.filterMap Node.openClass? := by
      refine List.mem_filterMap.mpr ⟨.classDecl owner, ?_, rfl⟩
      rw [path, List.mem_reverse, above_of_mem_children hchild, howner]
      exact List.mem_cons_of_mem _ (List.mem_cons_self ..)
    exact List.ne_nil_of_mem hopen

end Stop

end Tree

/-! ## Visits restore the scopes -/

namespace Context

/-- The same functions and the same classes are open. -/
def SameScopes (c c' : Context) : Prop := c.functions = c'.functions ∧ c.classes = c'.classes

theorem SameScopes.refl (c : Context) : c.SameScopes c := ⟨rfl, rfl⟩

theorem SameScopes.trans {c c' c'' : Context} (h : c.SameScopes c') (h' : c'.SameScopes c'') :
    c.SameScopes c'' :=
  ⟨h.1.trans h'.1, h.2.trans h'.2⟩

theorem sameScopes_withSlots (c : Context) (slots : List (RuleId × Slot)) :
    SameScopes { c with slots := slots } c := ⟨rfl, rfl⟩

end Context

namespace Dispatcher

open Context

variable {d : Dispatcher}

theorem sameScopes_dispatch (hd : d.KeepsScopes) (site : Site) (c : Context) :
    (d.dispatch site c).2.SameScopes c := by
  rw [hd site c]
  exact sameScopes_withSlots c _

/-- What entering has opened, leaving closes. -/
theorem sameScopes_leave {site : Site} (hsite : site.node.isFile = false) {c c' : Context}
    (h : c'.SameScopes (enter site c)) : (d.leave site c').2.SameScopes c := by
  obtain ⟨place, node⟩ := site
  obtain ⟨hfunctions, hclasses⟩ := h
  cases node with
  | file f => exact absurd hsite (by simp [Node.isFile])
  | classDecl decl => exact ⟨hfunctions, congrArg List.tail hclasses⟩
  | function decl => exact ⟨congrArg List.tail hfunctions, hclasses⟩
  | method decl => exact ⟨congrArg List.tail hfunctions, hclasses⟩
  | _ => exact ⟨hfunctions, hclasses⟩

theorem sameScopes_visitList {α : Type} {visitOne : α → Context → List Event × Context}
    {as : List α} (h : ∀ a ∈ as, ∀ c, (visitOne a c).2.SameScopes c) (c : Context) :
    (visitList visitOne as c).2.SameScopes c := by
  induction as generalizing c with
  | nil => exact .refl c
  | cons a rest ih =>
    rw [visitList_cons]
    have hfirst := h a (List.mem_cons_self ..) c
    exact (ih (fun b hb => h b (List.mem_cons_of_mem _ hb)) _).trans hfirst

/-- The visit of anything but a file leaves the scopes as it found them. -/
theorem sameScopes_visit (hd : d.KeepsScopes) {site : Site} (hsite : site.node.isFile = false)
    (depth : Nat) (c : Context) : (d.visit depth site c).2.SameScopes c := by
  induction site using Walk.induct generalizing depth c with
  | step site ih =>
    rw [visit_eq]
    refine sameScopes_leave hsite ?_
    refine SameScopes.trans ?_ (sameScopes_dispatch hd site (enter site c))
    exact sameScopes_visitList
      (fun child hchild c => ih child hchild (Site.isFile_of_mem_children hchild) (depth + 1) c) _

/-- Below any node, also a file, the scopes are the ones that entering it has opened. -/
theorem sameScopes_children (hd : d.KeepsScopes) (site : Site) (depth : Nat) (c : Context) :
    (visitList (d.visit depth) site.children c).2.SameScopes c :=
  sameScopes_visitList
    (fun _ hchild c => sameScopes_visit hd (Site.isFile_of_mem_children hchild) depth c) c

/-! ## The moments of a visit -/

/-- A moment at which the rules are asked about a node: how deep the node is, its site, and the
context in which they are asked. -/
structure Moment where
  depth : Nat
  site : Site
  context : Context

/-- What happens at a moment. -/
def Moment.event (d : Dispatcher) (m : Moment) : Event :=
  .asked m.depth m.site (d.dispatch m.site m.context).2 (d.dispatch m.site m.context).1

/-- Some sites that are visited one after the other, each with the context in which its visit
starts. -/
def arrivals (d : Dispatcher) (depth : Nat) : List Site → Context → List (Site × Context)
  | [], _ => []
  | site :: rest, c => (site, c) :: d.arrivals depth rest (d.visit depth site c).2

theorem fst_mem_of_mem_arrivals {depth : Nat} {sites : List Site} {c : Context}
    {a : Site × Context} (h : a ∈ d.arrivals depth sites c) : a.1 ∈ sites := by
  induction sites generalizing c with
  | nil => exact absurd h List.not_mem_nil
  | cons site rest ih =>
    rcases List.mem_cons.mp h with rfl | hrest
    · exact List.mem_cons_self ..
    · exact List.mem_cons_of_mem _ (ih hrest)

/-- The moments of a visit in their order: the node itself as soon as it is entered, then those of
its children. -/
def moments (d : Dispatcher) (depth : Nat) (site : Site) (c : Context) : List Moment :=
  ⟨depth, site, enter site c⟩ ::
    (d.arrivals (depth + 1) site.children (d.dispatch site (enter site c)).2).attach.flatMap
      fun a => d.moments (depth + 1) a.1.1 a.1.2
termination_by Walk.weight site
decreasing_by exact Walk.weight_lt_of_mem_children (fst_mem_of_mem_arrivals a.2)

theorem moments_eq (d : Dispatcher) (depth : Nat) (site : Site) (c : Context) :
    d.moments depth site c =
      ⟨depth, site, enter site c⟩ ::
        (d.arrivals (depth + 1) site.children (d.dispatch site (enter site c)).2).flatMap
          fun a => d.moments (depth + 1) a.1 a.2 := by
  rw [moments]
  congr 1
  generalize d.arrivals (depth + 1) site.children (d.dispatch site (enter site c)).2 = visits
  have hval := List.flatMap_map (l := visits.attach) Subtype.val
    fun a : Site × Context => d.moments (depth + 1) a.1 a.2
  rw [← hval, List.attach_map_subtype_val]

end Dispatcher

/-- The event is a question to the rules. -/
def Event.isAsked : Event → Bool
  | asked .. => true
  | left .. => false

namespace Dispatcher

open Context

variable {d : Dispatcher}

theorem filter_isAsked_visitList {depth : Nat} {sites : List Site}
    (h : ∀ site ∈ sites, ∀ c, (d.visit depth site c).1.filter Event.isAsked =
      (d.moments depth site c).map (Moment.event d)) (c : Context) :
    (visitList (d.visit depth) sites c).1.filter Event.isAsked =
      ((d.arrivals depth sites c).flatMap fun a => d.moments depth a.1 a.2).map
        (Moment.event d) := by
  induction sites generalizing c with
  | nil => rfl
  | cons site rest ih =>
    rw [visitList_cons, List.filter_append, h site (List.mem_cons_self ..), arrivals,
      List.flatMap_cons, List.map_append, ih fun s hs => h s (List.mem_cons_of_mem _ hs)]

/-- The moments of a visit are the questions among its events: the context and the findings of each
question are what the rules make of the context of the moment. -/
theorem filter_isAsked_visit (depth : Nat) (site : Site) (c : Context) :
    (d.visit depth site c).1.filter Event.isAsked =
      (d.moments depth site c).map (Moment.event d) := by
  induction site using Walk.induct generalizing depth c with
  | step site ih =>
    have hvisits : ∀ child ∈ site.children, ∀ c,
        (d.visit (depth + 1) child c).1.filter Event.isAsked =
          (d.moments (depth + 1) child c).map (Moment.event d) :=
      fun child hchild c => ih child hchild (depth + 1) c
    have hbelow := filter_isAsked_visitList hvisits (d.dispatch site (enter site c)).2
    rw [visit_eq, moments_eq, List.filter_append, List.filter_cons_of_pos rfl, hbelow,
      List.map_cons]
    exact List.append_nil _

/-- The site of a moment, and the functions and classes that are open, outermost first. -/
def Moment.scopes (m : Moment) : Site × List FunctionScope × List ClassDecl :=
  (m.site, m.context.functions.reverse, m.context.classes.reverse)

end Dispatcher

/-- The site of a stop, and the functions and classes on the way to it. -/
def Tree.Stop.scopes (s : Stop) : Site × List FunctionScope × List ClassDecl :=
  (s.site, s.path.filterMap Node.functionScope?, s.path.filterMap Node.openClass?)

namespace Dispatcher

open Context

variable {d : Dispatcher}

/-- Stops below one node, visited one after the other from a context with the scopes of the node. -/
theorem scopes_arrivals (hd : d.KeepsScopes) {depth : Nat} {stops : List Stop} {c : Context}
    (hfile : ∀ t ∈ stops, t.site.node.isFile = false)
    (h : ∀ t ∈ stops, ∀ c', c'.SameScopes c →
      (d.moments depth t.site c').map Moment.scopes = (Walk.preorder t).map Stop.scopes)
    {c' : Context} (hc : c'.SameScopes c) :
    ((d.arrivals depth (stops.map Stop.site) c').flatMap
        fun a => d.moments depth a.1 a.2).map Moment.scopes =
      (stops.flatMap Walk.preorder).map Stop.scopes := by
  induction stops generalizing c' with
  | nil => rfl
  | cons t rest ih =>
    have hnext : (d.visit depth t.site c').2.SameScopes c :=
      (sameScopes_visit hd (hfile t (List.mem_cons_self ..)) depth c').trans hc
    rw [List.map_cons, arrivals, List.flatMap_cons, List.flatMap_cons, List.map_append,
      List.map_append, h t (List.mem_cons_self ..) c' hc,
      ih (fun u hu => hfile u (List.mem_cons_of_mem _ hu))
        (fun u hu => h u (List.mem_cons_of_mem _ hu)) hnext]

/-- Once entering a node has opened the scopes on the way to it, they are the open ones at every
moment from there on. -/
theorem scopes_moments (hd : d.KeepsScopes) (s : Stop) (depth : Nat) (c : Context)
    (hfunctions : (enter s.site c).functions = Stop.functionsOf (s.site.node :: s.above))
    (hclasses : (enter s.site c).classes = Stop.classesOf (s.site.node :: s.above)) :
    (d.moments depth s.site c).map Moment.scopes = (Walk.preorder s).map Stop.scopes := by
  induction s using Walk.induct generalizing depth c with
  | step s ih =>
    have hhere : Moment.scopes ⟨depth, s.site, enter s.site c⟩ = s.scopes := by
      rw [Moment.scopes, Stop.scopes, hfunctions, hclasses, Stop.reverse_functionsOf,
        Stop.reverse_classesOf]
    have hbelow : ∀ t ∈ s.children, ∀ c', c'.SameScopes (enter s.site c) →
        (d.moments (depth + 1) t.site c').map Moment.scopes =
          (Walk.preorder t).map Stop.scopes := by
      intro t ht c' hc'
      have hchild := Stop.isFile_of_mem_children ht
      -- the scopes of the parent are the ones in which the visit of the child arrives
      have harrival : c' = t.arrival c'.file c'.slots := by
        rw [Stop.arrival, Stop.above_of_mem_children ht, ← hfunctions, ← hclasses, ← hc'.1, ← hc'.2]
      have henter := enter_of_not_isFile hchild c'.file c'.slots
      rw [← harrival] at henter
      refine ih t ht (depth + 1) c' ?_ ?_ <;> rw [henter, Stop.context]
    rw [moments_eq, List.map_cons, hhere, Stop.preorder_cons, List.map_cons, ← s.map_site_children,
      scopes_arrivals hd (fun t ht => Stop.isFile_of_mem_children ht) hbelow
        (sameScopes_dispatch hd s.site (enter s.site c))]

/-- A file starts with nothing open, whatever was open before. -/
theorem scopes_enter_file (place : Place) (f : SourceFile) (c : Context) :
    (enter ⟨place, .file f⟩ c).functions = [] ∧ (enter ⟨place, .file f⟩ c).classes = [] := by
  simp only [enter]
  split
  · exact ⟨rfl, rfl⟩
  · exact ⟨rfl, rfl⟩

/-- At the end of a file the rules write nothing but slots. -/
theorem sameScopes_leave_file (ids : List RuleId) (settings : Settings) (place : Place)
    (f : SourceFile) (c : Context) :
    ((Rules.dispatcher ids settings).leave ⟨place, .file f⟩ c).2.SameScopes c := by
  rw [leave_file, ask_keeps (Rules.confined_finish settings) _ c]
  exact sameScopes_withSlots c _

/-- The open scopes mirror the tree.  Let any of the nine rules be registered, in any order and any
number, and let the walk of a file start in any context.

* The moments at which the rules are asked about a node are the nodes of the file in pre-order, and
  at each of them the open functions and methods, each with its kind, are those on the way from the
  file down to the node, the node included, and the open classes, also those without a name, are
  those on the same way.
* The rules leave the scopes as they are when they are asked.
* When the file has been left, nothing is open.
* The visit of anything but a file, from any context, leaves the open scopes as they were.
* No method is asked about while no class is open. -/
theorem scopes_mirror_tree (ids : List RuleId) (settings : Settings) (i : Nat) (f : SourceFile)
    (depth : Nat) (c : Context) :
    (((Rules.dispatcher ids settings).visit depth (.ofFile i f) c).1.filter Event.isAsked =
        ((Rules.dispatcher ids settings).moments depth (.ofFile i f) c).map
          (Moment.event (Rules.dispatcher ids settings)) ∧
      ((Rules.dispatcher ids settings).moments depth (.ofFile i f) c).map Moment.scopes =
        (Walk.preorder (Stop.ofFile i f)).map Stop.scopes) ∧
    (∀ site c, ((Rules.dispatcher ids settings).dispatch site c).2.SameScopes c) ∧
    (((Rules.dispatcher ids settings).visit depth (.ofFile i f) c).2.functions = [] ∧
      ((Rules.dispatcher ids settings).visit depth (.ofFile i f) c).2.classes = []) ∧
    (∀ site : Site, site.node.isFile = false → ∀ depth c,
      ((Rules.dispatcher ids settings).visit depth site c).2.SameScopes c) ∧
    ∀ m ∈ (Rules.dispatcher ids settings).moments depth (.ofFile i f) c,
      ∀ decl, m.site.node = .method decl → m.context.classes ≠ [] := by
  have hd := keepsScopes_dispatcher ids settings
  obtain ⟨hfunctions, hclasses⟩ := scopes_enter_file (Place.root i) f c
  have hmoments : ((Rules.dispatcher ids settings).moments depth (.ofFile i f) c).map
      Moment.scopes = (Walk.preorder (Stop.ofFile i f)).map Stop.scopes :=
    scopes_moments hd (Stop.ofFile i f) depth c hfunctions hclasses
  refine ⟨⟨filter_isAsked_visit depth _ c, hmoments⟩, sameScopes_dispatch hd, ?_,
    fun site hsite depth c => sameScopes_visit hd hsite depth c, ?_⟩
  · have hend := (sameScopes_leave_file ids settings (Place.root i) f _).trans
      ((sameScopes_children hd (.ofFile i f) (depth + 1) _).trans
        (sameScopes_dispatch hd (.ofFile i f) (enter (.ofFile i f) c)))
    rw [visit_eq]
    exact ⟨hend.1.trans hfunctions, hend.2.trans hclasses⟩
  · intro m hm decl hdecl hnone
    have hmem : m.scopes ∈ (Walk.preorder (Stop.ofFile i f)).map Stop.scopes := by
      rw [← hmoments]
      exact List.mem_map_of_mem hm
    obtain ⟨s, hs, hscopes⟩ := List.mem_map.mp hmem
    obtain ⟨hsite, hrest⟩ := Prod.mk.inj hscopes
    have hopen : s.path.filterMap Node.openClass? = m.context.classes.reverse :=
      (Prod.mk.inj hrest).2
    refine Stop.classes_ne_nil_of_method hs (hsite ▸ hdecl) ?_
    rw [hopen, hnone, List.reverse_nil]

/-- A method of a class without a name, inside a function. -/
def localMethod : SourceFile :=
  let owner : ClassDecl := ⟨.line 2, none, [.method (.named "run" 2 2)]⟩
  ⟨"a.php", none, [.ofFunction ((FunctionDecl.named "make" 1 3).withBody
    [.ofExpr (.ofKind (.new (.anonymous owner) []))])]⟩

theorem exists_stop_localMethod :
    ∃ s ∈ Walk.preorder (Stop.ofFile 7 localMethod),
      s.site.node = .method (.named "run" 2 2) := by
  simp [Stop.preorder_cons, Stop.children, Stop.ofFile, Site.ofFile, Site.children, localMethod,
    Stmt.ofFunction, Stmt.ofExpr, Stmt.ofKind, Expr.ofKind, FunctionDecl.named,
    FunctionDecl.withBody, Node.children, Node.ofStmts, Node.ofStmts?, Node.ofStmt,
    Node.ofStmtKind, Node.ofExprKind, Node.ofClassRef, Node.ofExprs, Node.ofMember]

/-- A walk that starts while a function and a class are still open asks about that method with one
class open. -/
theorem scopes_mirror_tree_localMethod :
    ∃ m ∈ (Rules.dispatcher RuleId.all .default).moments 0 (.ofFile 7 localMethod)
        ⟨none, [⟨.named "old" 1 1, .method⟩], [.named "Old" 1 1], []⟩,
      m.site.node = .method (.named "run" 2 2) ∧ m.context.classes ≠ [] := by
  obtain ⟨⟨-, hmoments⟩, -, -, -, hmethods⟩ := scopes_mirror_tree RuleId.all .default 7 localMethod
    0 ⟨none, [⟨.named "old" 1 1, .method⟩], [.named "Old" 1 1], []⟩
  obtain ⟨s, hs, hnode⟩ := exists_stop_localMethod
  have hmem := List.mem_map_of_mem (f := Stop.scopes) hs
  rw [← hmoments] at hmem
  obtain ⟨m, hm, hscopes⟩ := List.mem_map.mp hmem
  have hmethod : m.site.node = .method (.named "run" 2 2) :=
    (congrArg (fun x => x.1.node) hscopes).trans hnode
  exact ⟨m, hm, hmethod, hmethods m hm _ hmethod⟩

end Dispatcher

end SafetyLint
