import SafetyLint.Proofs.Parts

/-!
# The walk shows every part once

Not every part of a tree is a node: the kind of a statement, a branch, a member or an array item
only lead to nodes.  `Spot.node?` says which spots a node shows, and by which node.  It looks at the
spot and at the part that the spot directly stands in, and knows nothing of `Node.children`.

The front of a spot is what a walk meets first when it comes there: the node that shows the spot, or
else the nodes of what stands in it.  A node's children are the fronts of the spots directly below
(`Part.nextFront_eq`), with one case for each constructor of the tree; from that, by induction, the
walk over nodes is the walk over spots with everything left out that is not shown
(`Spot.filterMap_node?_preorder`).
-/

namespace SafetyLint
namespace Tree

open Stored

/-- A statement that only wraps a declaration. -/
def StmtKind.isDecl : StmtKind → Bool
  | .classDecl _ => true
  | .functionDecl _ => true
  | _ => false

/-- The node that shows a function: a method where the function is the member of a class. -/
def Node.ofFunction (holder : Option Part) (d : FunctionDecl) : Node :=
  match holder with
  | some (.member _) => .method d
  | _ => .function d

theorem Node.children_ofFunction (holder : Option Part) (d : FunctionDecl) :
    (Node.ofFunction holder d).children = d.params.map Node.param ++ Node.ofStmts? d.body := by
  unfold ofFunction
  split <;> rfl

namespace Part

/-- The node that shows a part which stands directly in `holder`, if one does. -/
def node? (holder : Option Part) : Part → Option Node
  | file f => some (.file f)
  | stmt s => if s.kind.isDecl then none else some (.stmt s)
  | stmtKind _ => none
  | elseIf _ => none
  | case _ => none
  | handler _ => none
  | classDecl d => some (.classDecl d)
  | member _ => none
  | property d => some (.property d)
  | function d => some (Node.ofFunction holder d)
  | param p => some (.param p)
  | expr e => some (.expr e)
  | exprKind _ => none
  | callee _ => none
  | classRef _ => none
  | item _ => none

/-- What a walk meets first at a part: its node, or the nodes of what stands in it. -/
def front (holder : Option Part) : Part → List Node
  | file f => [.file f]
  | stmt s => [.ofStmt s]
  | stmtKind k => Node.ofStmtKind k
  | elseIf b => Node.ofElseIf b
  | case c => Node.ofCase c
  | handler c => Node.ofCatch c
  | classDecl d => [.classDecl d]
  | member m => Node.ofMember m
  | property d => [.property d]
  | function d => [.ofFunction holder d]
  | param p => [.param p]
  | expr e => [.expr e]
  | exprKind k => Node.ofExprKind k
  | callee c => Node.ofCallee c
  | classRef r => Node.ofClassRef r
  | item i => Node.ofItem i

end Part

/-- What a walk meets first in an argument. -/
def Content.front (holder : Option Part) (c : Content) : List Node :=
  c.parts.flatMap (Part.front holder)

/-! ## Fronts of arguments -/

namespace Content

variable (holder : Option Part)

@[simp] theorem front_list {α : Type} [SizeOf α] [Stored α] (as : List α) :
    (content as).front holder = as.flatMap fun a => (content a).front holder :=
  List.flatMap_assoc

@[simp] theorem front_option {α : Type} [SizeOf α] [Stored α] (a : Option α) :
    (content a).front holder = a.toList.flatMap fun a => (content a).front holder := by
  cases a with
  | none => rfl
  | some a => exact (List.append_nil _).symm

-- Arguments in which no part stands.

@[simp] theorem front_string (x : String) : (content x).front holder = [] := rfl

@[simp] theorem front_bool (x : Bool) : (content x).front holder = [] := rfl

@[simp] theorem front_visibility (x : Visibility) : (content x).front holder = [] := rfl

@[simp] theorem front_binaryOp (x : BinaryOp) : (content x).front holder = [] := rfl

@[simp] theorem front_unaryOp (x : UnaryOp) : (content x).front holder = [] := rfl

@[simp] theorem front_span (x : Span) : (content x).front holder = [] := rfl

@[simp] theorem front_scalar (x : Scalar) : (content x).front holder = [] := rfl

@[simp] theorem front_directive (x : Directive) : (content x).front holder = [] := rfl

@[simp] theorem front_type (x : Ty) : (content x).front holder = [] := rfl

-- Arguments that are parts.

@[simp] theorem front_stmt (s : Stmt) : (content s).front holder = [.ofStmt s] := rfl

@[simp] theorem front_expr (e : Expr) : (content e).front holder = [.expr e] := rfl

@[simp] theorem front_param (p : Param) : (content p).front holder = [.param p] := rfl

@[simp] theorem front_classDecl (d : ClassDecl) : (content d).front holder = [.classDecl d] := rfl

@[simp] theorem front_property (d : PropertyDecl) : (content d).front holder = [.property d] := rfl

@[simp] theorem front_function (d : FunctionDecl) :
    (content d).front holder = [.ofFunction holder d] := rfl

@[simp] theorem front_stmtKind (k : StmtKind) : (content k).front holder = Node.ofStmtKind k :=
  List.append_nil _

@[simp] theorem front_exprKind (k : ExprKind) : (content k).front holder = Node.ofExprKind k :=
  List.append_nil _

@[simp] theorem front_elseIf (b : ElseIf) : (content b).front holder = Node.ofElseIf b :=
  List.append_nil _

@[simp] theorem front_case (c : Case) : (content c).front holder = Node.ofCase c :=
  List.append_nil _

@[simp] theorem front_handler (c : Catch) : (content c).front holder = Node.ofCatch c :=
  List.append_nil _

@[simp] theorem front_member (m : Member) : (content m).front holder = Node.ofMember m :=
  List.append_nil _

@[simp] theorem front_callee (c : Callee) : (content c).front holder = Node.ofCallee c :=
  List.append_nil _

@[simp] theorem front_classRef (r : ClassRef) : (content r).front holder = Node.ofClassRef r :=
  List.append_nil _

@[simp] theorem front_item (i : ArrayItem) : (content i).front holder = Node.ofItem i :=
  List.append_nil _

end Content

/-! ## From a part to what stands in it -/

namespace Part

/-- The fronts of what stands in a part, in the order of a visit. -/
def nextFront (p : Part) : List Node := (p.inOrder p.contents).flatMap (Content.front (some p))

theorem flatMap_front_branches (p : Part) :
    (p.branches.map Prod.snd).flatMap (front (some p)) = p.nextFront := by
  rw [map_snd_branches]
  unfold nextFront inOrder fields
  cases p.isDoWhile with
  | true =>
    rw [if_pos rfl, if_pos rfl, ← List.map_reverse, List.flatten_eq_flatMap, List.flatMap_map,
      List.flatMap_assoc]
    rfl
  | false =>
    rw [if_neg Bool.false_ne_true, if_neg Bool.false_ne_true, List.flatten_eq_flatMap,
      List.flatMap_map, List.flatMap_assoc]
    rfl

attribute [local simp] nextFront inOrder isDoWhile contents Node.ofStmts Node.ofStmts? Node.ofExprs
  Node.ofExpr?

theorem nextFront_stmtKind (k : StmtKind) : (stmtKind k).nextFront = Node.ofStmtKind k := by
  cases k with
  | functionDecl d => rfl
  | ifElse condition thenBody elseIfs otherwise =>
    cases otherwise <;> simp [StmtKind.contents, Node.ofStmtKind, ← List.map_eq_flatMap]
  | tryCatch body catches cleanup =>
    cases cleanup <;> simp [StmtKind.contents, Node.ofStmtKind, ← List.map_eq_flatMap]
  | _ => simp [StmtKind.contents, Node.ofStmtKind, ← List.map_eq_flatMap]

theorem nextFront_exprKind (k : ExprKind) : (exprKind k).nextFront = Node.ofExprKind k := by
  cases k <;> simp [ExprKind.contents, Node.ofExprKind, ← List.map_eq_flatMap]

theorem nextFront_function (d : FunctionDecl) :
    (function d).nextFront = d.params.map Node.param ++ Node.ofStmts? d.body := by
  obtain ⟨span, name, params, body, isAbstract, isStatic, visibility⟩ := d
  cases body <;> simp [← List.map_eq_flatMap]

/-- What a walk meets first in a part: the children of its node if it has one, else its own
front. -/
theorem nextFront_eq (holder : Option Part) (p : Part) :
    p.nextFront = ((p.node? holder).map Node.children).getD (p.front holder) := by
  cases p with
  | file f => cases f; simp [node?, Node.children, ← List.map_eq_flatMap]
  | stmt s =>
    obtain ⟨span, kind, comments⟩ := s
    cases kind <;> simp [node?, front, StmtKind.isDecl, Node.children, Node.ofStmt, Node.ofStmtKind]
  | stmtKind k => exact nextFront_stmtKind k
  | elseIf b => cases b; simp [node?, front, Node.ofElseIf, ← List.map_eq_flatMap]
  | case c => cases c; simp [node?, front, Node.ofCase, ← List.map_eq_flatMap]
  | handler c =>
    obtain ⟨types, var, body⟩ := c
    cases var <;> simp [node?, front, Node.ofCatch, ← List.map_eq_flatMap]
  | classDecl d => cases d; simp [node?, Node.children]
  | member m => cases m <;> simp [node?, front, Node.ofMember, Node.ofFunction]
  | property d => cases d; simp [node?, Node.children, ← List.map_eq_flatMap]
  | function d =>
    rw [nextFront_function]
    exact (Node.children_ofFunction holder d).symm
  | param p => cases p; simp [node?, Node.children, ← List.map_eq_flatMap]
  | expr e => cases e; simp [node?, Node.children]
  | exprKind k => exact nextFront_exprKind k
  | callee c => cases c <;> simp [node?, front, Node.ofCallee]
  | classRef r => cases r <;> simp [node?, front, Node.ofClassRef]
  | item i => cases i; simp [node?, front, Node.ofItem, ← List.map_eq_flatMap]

/-- A part with a node has only this node in front. -/
theorem front_of_node?_eq_some {holder : Option Part} {p : Part} {n : Node}
    (h : p.node? holder = some n) : p.front holder = [n] := by
  cases p with
  | stmt s =>
    obtain ⟨span, kind, comments⟩ := s
    cases kind <;> simp_all [node?, front, StmtKind.isDecl, Node.ofStmt]
  | _ => simp_all [node?, front]

end Part

/-! ## The walk over nodes and the walk over spots -/

namespace Spot

/-- The node that shows a spot, if one does. -/
def node? (r : Spot) : Option Node := r.part.node? r.holder

/-- What a walk meets first at a spot. -/
def front (r : Spot) : List Node := r.part.front r.holder

theorem flatMap_front_children (r : Spot) :
    (Walk.Branching.children r).flatMap front = r.part.nextFront := by
  show r.children.flatMap front = _
  rw [← Part.flatMap_front_branches, children, List.flatMap_map, List.flatMap_map]
  rfl

/-- The nodes of a walk from a spot on are those that show the spots there. -/
theorem filterMap_node?_preorder (r : Spot) :
    (Walk.preorder r).filterMap node? = r.front.flatMap Walk.preorder := by
  induction r using Walk.induct with
  | step r ih =>
    have hbelow : ((Walk.Branching.children r).flatMap Walk.preorder).filterMap node? =
        r.part.nextFront.flatMap Walk.preorder := by
      rw [List.filterMap_flatMap, List.flatMap_congr ih, ← List.flatMap_assoc,
        flatMap_front_children]
    have hnext := r.part.nextFront_eq r.holder
    rw [Walk.preorder_cons, List.filterMap_cons, hbelow, hnext]
    cases hnode : r.part.node? r.holder with
    | none =>
      rw [show r.node? = none from hnode]
      rfl
    | some n =>
      rw [show r.node? = some n from hnode, front, Part.front_of_node?_eq_some hnode,
        List.flatMap_singleton, Walk.preorder_cons n]
      rfl

end Spot

/-! ## Field paths of a file -/

theorem map_some_filterMap {α β : Type} (g : α → Option β) (l : List α) :
    (l.filterMap g).map some = (l.filter fun a => (g a).isSome).map g := by
  induction l with
  | nil => rfl
  | cons a rest ih => cases h : g a <;> simp [h, ih]

namespace SourceFile

/-- The part of a file that a field path leads to. -/
def partAt (f : SourceFile) (π : FieldPath) : Option Part :=
  ((Spot.ofFile f).locate? π).map Spot.part

/-- The node that shows what a field path leads to, if one does. -/
def shownAt (f : SourceFile) (π : FieldPath) : Option Node :=
  ((Spot.ofFile f).locate? π).bind Spot.node?

/-- The spots of a file that a node shows, in the order of a visit. -/
def shown (f : SourceFile) : List Spot :=
  (Walk.preorder (Spot.ofFile f)).filter fun r => r.node?.isSome

theorem locate?_path {f : SourceFile} {r : Spot} (h : r ∈ Walk.preorder (Spot.ofFile f)) :
    (Spot.ofFile f).locate? r.path = some r := by
  obtain ⟨π, hπ⟩ := Spot.mem_preorder_iff.mp h
  rw [Spot.path_of_locate? hπ]
  exact hπ

theorem shownAt_path {f : SourceFile} {r : Spot} (h : r ∈ f.shown) :
    f.shownAt r.path = r.node? := by
  rw [shownAt, locate?_path (List.mem_of_mem_filter h)]
  rfl

theorem mem_map_path_shown {f : SourceFile} {π : FieldPath} :
    π ∈ f.shown.map Spot.path ↔ (f.shownAt π).isSome := by
  rw [List.mem_map]
  constructor
  · rintro ⟨r, hr, rfl⟩
    rw [shownAt_path hr]
    exact (List.mem_filter.mp hr).2
  · intro h
    obtain ⟨n, hn⟩ := Option.isSome_iff_exists.mp h
    obtain ⟨r, hr, hnode⟩ := Option.bind_eq_some_iff.mp hn
    refine ⟨r, List.mem_filter.mpr ⟨Spot.mem_preorder_iff.mpr ⟨π, hr⟩, ?_⟩, ?_⟩
    · rw [hnode]
      rfl
    · exact Spot.path_of_locate? hr

theorem pairwise_path_shown (f : SourceFile) :
    (f.shown.map Spot.path).Pairwise (Part.file f).Before := by
  rw [List.pairwise_map]
  refine ((Spot.pairwise_preorder (Spot.ofFile f)).imp ?_).filter _
  rintro r t ⟨π, ρ, hπ, hρ, hbefore⟩
  rw [hπ, hρ]
  exact hbefore

/-- The walk over the nodes of a file meets the node of one shown spot after the other. -/
theorem map_some_preorder (f : SourceFile) :
    (Walk.preorder (Node.file f)).map some = (f.shown.map Spot.path).map f.shownAt := by
  have hwalk : (Walk.preorder (Spot.ofFile f)).filterMap Spot.node? =
      Walk.preorder (Node.file f) := by
    rw [Spot.filterMap_node?_preorder]
    exact List.append_nil _
  rw [← hwalk, map_some_filterMap, List.map_map]
  exact List.map_congr_left fun r hr => (shownAt_path hr).symm

/-- A longer path goes on from the spot that its first part leads to. -/
theorem shownAt_append {f : SourceFile} {π : FieldPath} {r : Spot}
    (h : (Spot.ofFile f).locate? π = some r) (ρ : FieldPath) :
    f.shownAt (π ++ ρ) = (r.locate? ρ).bind Spot.node? := by
  rw [shownAt, Spot.locate?_append, h]
  rfl

/-- A part without a node of its own whose only content is a declaration: the declaration stands for
it. -/
theorem shownAt_wrapper {f : SourceFile} {π ρ : FieldPath} {p : Part} {n : Node}
    (hpart : f.partAt π = some p)
    (h : ∀ r : Spot, r.part = p → r.node? = none ∧ (r.locate? ρ).bind Spot.node? = some n) :
    f.shownAt π = none ∧ f.shownAt (π ++ ρ) = some n := by
  obtain ⟨r, hr, hrp⟩ := Option.map_eq_some_iff.mp hpart
  have hself := shownAt_append hr []
  rw [List.append_nil] at hself
  rw [hself, shownAt_append hr]
  exact h r hrp

end SourceFile

namespace Step

/-- The step from a statement to its kind. -/
def kind : Step := ⟨1, 0⟩

/-- The step into the first field, to the first part there. -/
def first : Step := ⟨0, 0⟩

end Step

/-- A walk over the nodes of a file visits what has a node once, and nothing else.  The paths of
what it visits are all those at which a node shows something, each once and in the order of the
fields; the walk meets what they lead to.  A class in a statement or an expression is seen only as a
class, a function in a statement only as a function, and a function that is a member of a class only
as a method. -/
theorem walk_shows_each_part_once (f : SourceFile) :
    (∃ paths : List FieldPath,
      (∀ π, π ∈ paths ↔ (f.shownAt π).isSome) ∧ paths.Nodup ∧
        paths.Pairwise (Part.file f).Before ∧
        (Walk.preorder (Node.file f)).map some = paths.map f.shownAt) ∧
    (∀ π span d comments, f.partAt π = some (.stmt ⟨span, .classDecl d, comments⟩) →
      f.shownAt π = none ∧ f.shownAt (π ++ [.kind, .first]) = some (.classDecl d)) ∧
    (∀ π d, f.partAt π = some (.classRef (.anonymous d)) →
      f.shownAt π = none ∧ f.shownAt (π ++ [.first]) = some (.classDecl d)) ∧
    (∀ π span d comments, f.partAt π = some (.stmt ⟨span, .functionDecl d, comments⟩) →
      f.shownAt π = none ∧ f.shownAt (π ++ [.kind, .first]) = some (.function d)) ∧
    (∀ π d, f.partAt π = some (.member (.method d)) →
      f.shownAt π = none ∧ f.shownAt (π ++ [.first]) = some (.method d)) := by
  have hnodup : (f.shown.map Spot.path).Nodup := by
    refine f.pairwise_path_shown.imp ?_
    rintro π _ hbefore rfl
    exact (Part.file f).not_before_self π hbefore
  refine ⟨⟨f.shown.map Spot.path, fun π => SourceFile.mem_map_path_shown, hnodup,
    f.pairwise_path_shown, f.map_some_preorder⟩, ?_, ?_, ?_, ?_⟩
  · intro π span d comments hpart
    refine SourceFile.shownAt_wrapper hpart ?_
    rintro ⟨path, holder, part⟩ rfl
    exact ⟨rfl, rfl⟩
  · intro π d hpart
    refine SourceFile.shownAt_wrapper hpart ?_
    rintro ⟨path, holder, part⟩ rfl
    exact ⟨rfl, rfl⟩
  · intro π span d comments hpart
    refine SourceFile.shownAt_wrapper hpart ?_
    rintro ⟨path, holder, part⟩ rfl
    exact ⟨rfl, rfl⟩
  · intro π d hpart
    refine SourceFile.shownAt_wrapper hpart ?_
    rintro ⟨path, holder, part⟩ rfl
    exact ⟨rfl, rfl⟩

end Tree
end SafetyLint
