import SafetyLint.Proofs.Preorder
import SafetyLint.Text.Name

/-!
# Side data

Beside its shape a tree carries side data: the text of a file, the comments before statements, the
types of expressions, and the qualifiers in front of the names of called functions.  A `Revision`
changes side data, everywhere in a tree at once, and lets everything else alone.

Two files that differ in side data of one sort only are two files that a revision makes equal: the
one that takes this sort of side data away.  `withoutText`, `withoutComments` and `withoutTypes` are
three of them.

A revision commutes with taking apart.  The children of a revised node are the revised children
(`children_node`), so what lies below a revised site, and what is collected there, are the revised
things.  Of a file a node shows the path and the statements only, since rules get to the text by way
of the context.
-/

namespace SafetyLint
namespace Tree

/-- A change of the side data of trees. -/
structure Revision where
  text : Option String → Option String
  comments : List String → List String
  type : Ty → Ty
  /-- The name by which a function is called; only its qualifiers change. -/
  called : String → String
  shortName_called : ∀ name, Text.shortName (called name) = Text.shortName name

namespace Revision

theorem shortName_id (name : String) : Text.shortName (id name) = Text.shortName name := rfl

/-- Takes the text of files away. -/
def withoutText : Revision := ⟨fun _ => none, id, id, id, shortName_id⟩

/-- Takes the comments of statements away. -/
def withoutComments : Revision := ⟨id, fun _ => [], id, id, shortName_id⟩

/-- Takes the types of expressions away. -/
def withoutTypes : Revision := ⟨id, id, fun _ => .unknown, id, shortName_id⟩

variable (r : Revision)

/-! ## Revised trees -/

mutual

def stmt : Stmt → Stmt
  | ⟨span, kind, comments⟩ => ⟨span, stmtKind kind, r.comments comments⟩

def stmts : List Stmt → List Stmt
  | [] => []
  | s :: rest => stmt s :: stmts rest

def body? : Option (List Stmt) → Option (List Stmt)
  | none => none
  | some body => some (stmts body)

def stmtKind : StmtKind → StmtKind
  | .namespaceBlock name body => .namespaceBlock name (stmts body)
  | .declareBlock directives => .declareBlock directives
  | .useNames names => .useNames names
  | .classDecl decl => .classDecl (classDecl decl)
  | .functionDecl decl => .functionDecl (function decl)
  | .expression e => .expression (expr e)
  | .echo es => .echo (exprs es)
  | .returnValue e => .returnValue (expr? e)
  | .ifElse condition thenBody branches otherwise =>
    .ifElse (expr condition) (stmts thenBody) (elseIfs branches) (body? otherwise)
  | .forLoop init condition step body =>
    .forLoop (exprs init) (exprs condition) (exprs step) (stmts body)
  | .whileLoop condition body => .whileLoop (expr condition) (stmts body)
  | .doWhile condition body => .doWhile (expr condition) (stmts body)
  | .foreach iterable key value body =>
    .foreach (expr iterable) (expr? key) (expr value) (stmts body)
  | .switch subject branches => .switch (expr subject) (cases branches)
  | .tryCatch body handlers cleanup => .tryCatch (stmts body) (catches handlers) (body? cleanup)
  | .breakLoop => .breakLoop
  | .continueLoop => .continueLoop
  | .goto label => .goto label
  | .label name => .label name
  | .global names => .global names
  | .block body => .block (stmts body)
  | .nop => .nop

def elseIfs : List ElseIf → List ElseIf
  | [] => []
  | b :: rest => elseIf b :: elseIfs rest

def elseIf : ElseIf → ElseIf
  | ⟨span, condition, body⟩ => ⟨span, expr condition, stmts body⟩

def cases : List Case → List Case
  | [] => []
  | c :: rest => case c :: cases rest

def case : Case → Case
  | ⟨test, body⟩ => ⟨expr? test, stmts body⟩

def catches : List Catch → List Catch
  | [] => []
  | c :: rest => handler c :: catches rest

def handler : Catch → Catch
  | ⟨types, var, body⟩ => ⟨types, var, stmts body⟩

def classDecl : ClassDecl → ClassDecl
  | ⟨span, name, ms⟩ => ⟨span, name, members ms⟩

def members : List Member → List Member
  | [] => []
  | m :: rest => member m :: members rest

def member : Member → Member
  | .property decl => .property (property decl)
  | .method decl => .method (function decl)
  | .constant span names => .constant span names
  | .traitUse span names => .traitUse span names

def property : PropertyDecl → PropertyDecl
  | ⟨span, names, visibility, isStatic, defaults⟩ =>
    ⟨span, names, visibility, isStatic, exprs defaults⟩

def function : FunctionDecl → FunctionDecl
  | ⟨span, name, ps, body, isAbstract, isStatic, visibility⟩ =>
    ⟨span, name, params ps, body? body, isAbstract, isStatic, visibility⟩

def params : List Param → List Param
  | [] => []
  | p :: rest => param p :: params rest

def param : Param → Param
  | ⟨span, name, promoted, default⟩ => ⟨span, name, promoted, expr? default⟩

def expr : Expr → Expr
  | ⟨span, kind, type⟩ => ⟨span, exprKind kind, r.type type⟩

def exprs : List Expr → List Expr
  | [] => []
  | e :: rest => expr e :: exprs rest

def expr? : Option Expr → Option Expr
  | none => none
  | some e => some (expr e)

def exprKind : ExprKind → ExprKind
  | .var name => .var name
  | .literal value => .literal value
  | .constFetch name => .constFetch name
  | .classConstFetch owner name => .classConstFetch (classRef owner) name
  | .array elements => .array (items elements)
  | .new owner args => .new (classRef owner) (exprs args)
  | .call target args => .call (callee target) (exprs args)
  | .methodCall receiver method args => .methodCall (expr receiver) method (exprs args)
  | .staticCall owner method args => .staticCall (classRef owner) method (exprs args)
  | .propertyFetch object property => .propertyFetch (expr object) property
  | .staticPropertyFetch owner property => .staticPropertyFetch (classRef owner) property
  | .arrayDimFetch array index => .arrayDimFetch (expr array) (expr? index)
  | .assign target value => .assign (expr target) (expr value)
  | .binary op left right => .binary op (expr left) (expr right)
  | .unary op operand => .unary op (expr operand)
  | .ternary condition thenValue otherwise =>
    .ternary (expr condition) (expr? thenValue) (expr otherwise)
  | .closure ps uses body => .closure (params ps) uses (stmts body)
  | .arrowFunction ps body => .arrowFunction (params ps) (expr body)
  | .errorSuppress operand => .errorSuppress (expr operand)
  | .throw value => .throw (expr value)
  | .other label children => .other label (exprs children)

def callee : Callee → Callee
  | .name name => .name (r.called name)
  | .expr e => .expr (expr e)

def classRef : ClassRef → ClassRef
  | .name name => .name name
  | .expr e => .expr (expr e)
  | .anonymous decl => .anonymous (classDecl decl)

def items : List ArrayItem → List ArrayItem
  | [] => []
  | i :: rest => item i :: items rest

def item : ArrayItem → ArrayItem
  | ⟨key, value⟩ => ⟨expr? key, expr value⟩

end

/-- The file with revised side data. -/
def file (f : SourceFile) : SourceFile := ⟨f.path, r.text f.text, r.stmts f.stmts⟩

/-! ### Lists -/

@[simp] theorem stmts_eq_map (body : List Stmt) : r.stmts body = body.map r.stmt := by
  induction body with
  | nil => rfl
  | cons s rest ih => exact congrArg (r.stmt s :: ·) ih

@[simp] theorem exprs_eq_map (es : List Expr) : r.exprs es = es.map r.expr := by
  induction es with
  | nil => rfl
  | cons e rest ih => exact congrArg (r.expr e :: ·) ih

@[simp] theorem members_eq_map (ms : List Member) : r.members ms = ms.map r.member := by
  induction ms with
  | nil => rfl
  | cons m rest ih => exact congrArg (r.member m :: ·) ih

@[simp] theorem elseIfs_eq_map (bs : List ElseIf) : r.elseIfs bs = bs.map r.elseIf := by
  induction bs with
  | nil => rfl
  | cons b rest ih => exact congrArg (r.elseIf b :: ·) ih

@[simp] theorem cases_eq_map (cs : List Case) : r.cases cs = cs.map r.case := by
  induction cs with
  | nil => rfl
  | cons c rest ih => exact congrArg (r.case c :: ·) ih

@[simp] theorem catches_eq_map (cs : List Catch) : r.catches cs = cs.map r.handler := by
  induction cs with
  | nil => rfl
  | cons c rest ih => exact congrArg (r.handler c :: ·) ih

@[simp] theorem params_eq_map (ps : List Param) : r.params ps = ps.map r.param := by
  induction ps with
  | nil => rfl
  | cons p rest ih => exact congrArg (r.param p :: ·) ih

@[simp] theorem items_eq_map (is : List ArrayItem) : r.items is = is.map r.item := by
  induction is with
  | nil => rfl
  | cons i rest ih => exact congrArg (r.item i :: ·) ih

@[simp] theorem expr?_eq_map (e : Option Expr) : r.expr? e = e.map r.expr := by
  cases e <;> rfl

@[simp] theorem body?_eq_map (body : Option (List Stmt)) :
    r.body? body = body.map fun body => body.map r.stmt := by
  cases body with
  | none => rfl
  | some body => exact congrArg some (r.stmts_eq_map body)

/-! ### Fields -/

variable (s : Stmt) (e : Expr) (d : FunctionDecl)

@[simp] theorem span_stmt : (r.stmt s).span = s.span := by cases s; rfl

@[simp] theorem kind_stmt : (r.stmt s).kind = r.stmtKind s.kind := by cases s; rfl

@[simp] theorem comments_stmt : (r.stmt s).comments = r.comments s.comments := by cases s; rfl

@[simp] theorem span_expr : (r.expr e).span = e.span := by cases e; rfl

@[simp] theorem kind_expr : (r.expr e).kind = r.exprKind e.kind := by cases e; rfl

@[simp] theorem type_expr : (r.expr e).type = r.type e.type := by cases e; rfl

@[simp] theorem span_function : (r.function d).span = d.span := by cases d; rfl

@[simp] theorem name_function : (r.function d).name = d.name := by cases d; rfl

@[simp] theorem params_function : (r.function d).params = d.params.map r.param := by
  cases d
  exact r.params_eq_map _

@[simp] theorem body_function :
    (r.function d).body = d.body.map fun body => body.map r.stmt := by
  cases d
  exact r.body?_eq_map _

@[simp] theorem isAbstract_function : (r.function d).isAbstract = d.isAbstract := by cases d; rfl

@[simp] theorem span_classDecl (d : ClassDecl) : (r.classDecl d).span = d.span := by cases d; rfl

@[simp] theorem name_classDecl (d : ClassDecl) : (r.classDecl d).name = d.name := by cases d; rfl

@[simp] theorem members_classDecl (d : ClassDecl) :
    (r.classDecl d).members = d.members.map r.member := by
  cases d
  exact r.members_eq_map _

/-! ## Nodes and sites -/

/-- The node with revised side data; a file is shown without its text. -/
def node : Node → Node
  | .file f => .file { r.file f with text := none }
  | .stmt s => .stmt (r.stmt s)
  | .expr e => .expr (r.expr e)
  | .classDecl d => .classDecl (r.classDecl d)
  | .function d => .function (r.function d)
  | .method d => .method (r.function d)
  | .property d => .property (r.property d)
  | .param p => .param (r.param p)

/-- The site with revised side data. -/
def site (s : Site) : Site := ⟨s.place, r.node s.node⟩

theorem nodeKind_stmtKind (k : StmtKind) : (r.stmtKind k).nodeKind = k.nodeKind := by
  cases k <;> rfl

theorem nodeKind_exprKind (k : ExprKind) : (r.exprKind k).nodeKind = k.nodeKind := by
  cases k <;> rfl

@[simp] theorem kind_node (n : Node) : (r.node n).kind = n.kind := by
  cases n with
  | stmt s => exact (congrArg StmtKind.nodeKind (r.kind_stmt s)).trans (r.nodeKind_stmtKind s.kind)
  | expr e => exact (congrArg ExprKind.nodeKind (r.kind_expr e)).trans (r.nodeKind_exprKind e.kind)
  | _ => rfl

/-- Findings about the revised node are on the same line. -/
@[simp] theorem line_node (n : Node) : (r.node n).line = n.line := by
  cases n with
  | file f => rfl
  | stmt s => exact congrArg Span.firstLine (r.span_stmt s)
  | expr e => exact congrArg Span.firstLine (r.span_expr e)
  | classDecl d => exact congrArg Span.firstLine (r.span_classDecl d)
  | function d => exact congrArg Span.firstLine (r.span_function d)
  | method d => exact congrArg Span.firstLine (r.span_function d)
  | property d => cases d; rfl
  | param p => cases p; rfl

/-! ### Children -/

open Node

theorem node_ofStmt (s : Stmt) : r.node (ofStmt s) = ofStmt (r.stmt s) := by
  obtain ⟨span, kind, comments⟩ := s
  cases kind <;> rfl

@[simp] theorem ofStmts_map (body : List Stmt) :
    ofStmts (body.map r.stmt) = (ofStmts body).map r.node := by
  rw [ofStmts, ofStmts, List.map_map, List.map_map]
  exact List.map_congr_left fun s _ => (r.node_ofStmt s).symm

@[simp] theorem ofExprs_map (es : List Expr) :
    ofExprs (es.map r.expr) = (ofExprs es).map r.node := by
  rw [ofExprs, ofExprs, List.map_map, List.map_map]
  rfl

@[simp] theorem ofExpr?_map (e : Option Expr) :
    ofExpr? (e.map r.expr) = (ofExpr? e).map r.node := by
  cases e <;> rfl

@[simp] theorem ofStmts?_map (body : Option (List Stmt)) :
    ofStmts? (body.map fun body => body.map r.stmt) = (ofStmts? body).map r.node := by
  cases body with
  | none => rfl
  | some body => exact r.ofStmts_map body

@[simp] theorem ofClassRef_classRef (c : ClassRef) :
    ofClassRef (r.classRef c) = (ofClassRef c).map r.node := by
  cases c <;> rfl

@[simp] theorem ofCallee_callee (c : Callee) : ofCallee (r.callee c) = (ofCallee c).map r.node := by
  cases c <;> rfl

/-- Parts that are shown one after the other. -/
theorem flatMap_map_eq {α : Type} {revised : α → α} {parts : α → List Node}
    (h : ∀ a, parts (revised a) = (parts a).map r.node) (as : List α) :
    (as.map revised).flatMap parts = (as.flatMap parts).map r.node := by
  rw [List.flatMap_map, List.map_flatMap]
  exact List.flatMap_congr fun a _ => h a

@[simp] theorem flatMap_ofMember (ms : List Member) :
    (ms.map r.member).flatMap ofMember = (ms.flatMap ofMember).map r.node :=
  r.flatMap_map_eq (fun m => by cases m <;> rfl) ms

@[simp] theorem flatMap_ofElseIf (bs : List ElseIf) :
    (bs.map r.elseIf).flatMap ofElseIf = (bs.flatMap ofElseIf).map r.node :=
  r.flatMap_map_eq (fun b => by cases b; simp [ofElseIf, elseIf, node]) bs

@[simp] theorem flatMap_ofCase (cs : List Case) :
    (cs.map r.case).flatMap ofCase = (cs.flatMap ofCase).map r.node :=
  r.flatMap_map_eq (fun c => by cases c; simp [ofCase, case]) cs

@[simp] theorem flatMap_ofCatch (cs : List Catch) :
    (cs.map r.handler).flatMap ofCatch = (cs.flatMap ofCatch).map r.node :=
  r.flatMap_map_eq (fun c => by cases c; simp [ofCatch, handler]) cs

@[simp] theorem flatMap_ofItem (is : List ArrayItem) :
    (is.map r.item).flatMap ofItem = (is.flatMap ofItem).map r.node :=
  r.flatMap_map_eq (fun i => by cases i; simp [ofItem, item, node]) is

/-- The children of the revised node are the revised children. -/
theorem children_node (n : Node) : (r.node n).children = n.children.map r.node := by
  cases n with
  | file f => simp [node, file, children]
  | stmt s =>
    obtain ⟨span, kind, comments⟩ := s
    cases kind <;> simp [node, stmt, stmtKind, children, ofStmtKind]
  | expr e =>
    obtain ⟨span, kind, type⟩ := e
    cases kind <;> simp [node, expr, exprKind, children, ofExprKind]
  | classDecl d => simp [node, children]
  | function d => simp [node, children]
  | method d => simp [node, children]
  | property d =>
    obtain ⟨span, names, visibility, isStatic, defaults⟩ := d
    simp [node, property, children]
  | param p =>
    obtain ⟨span, name, promoted, default⟩ := p
    simp [node, param, children]

theorem map_site_children (s : Site) : s.children.map r.site = (r.site s).children := by
  rw [Site.children, Site.children, site, children_node, List.mapIdx_eq_zipIdx_map,
    List.mapIdx_eq_zipIdx_map, List.zipIdx_map, List.map_map, List.map_map]
  rfl

theorem map_site_collect (kinds : List NodeKind) (root : Site) :
    (Walk.collect (Site.isOf kinds) root).map r.site =
      Walk.collect (Site.isOf kinds) (r.site root) :=
  Walk.map_collect r.site r.map_site_children
    (fun s => congrArg kinds.contains (r.kind_node s.node)) root

theorem map_node_collect (kinds : List NodeKind) (root : Node) :
    (Walk.collect (Node.isOf kinds) root).map r.node =
      Walk.collect (Node.isOf kinds) (r.node root) :=
  Walk.map_collect r.node (fun n => (r.children_node n).symm)
    (fun n => congrArg kinds.contains (r.kind_node n)) root

theorem occurs_node {p : Node → Bool} (hp : ∀ n, p (r.node n) = p n) (root : Node) :
    Walk.occurs p (r.node root) = Walk.occurs p root :=
  Walk.occurs_map r.node (fun n => (r.children_node n).symm) hp root

end Revision
end Tree
end SafetyLint
