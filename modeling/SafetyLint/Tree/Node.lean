import SafetyLint.Total
import SafetyLint.Tree.File

/-!
# Nodes

The parts of a tree that a walk visits, under one roof.  A node is a file, a statement, an
expression or a declaration; `Node.children` lists the nodes directly below it in the order of the
source.

A statement that only wraps a declaration of a class or function is not a node of its own: the
declaration stands in its place.  `Node.ofStmt` makes that choice.

Every walk below is a recursion over `children`.  The weight of a node is the size of the piece of
tree it shows, and `Node.sum_weight_children_lt` says that the children of a node together weigh
less than the node: that one fact ends every walk, recursive or with a stack of its own.
-/

namespace SafetyLint
namespace Tree

/-! ## Kinds -/

/-- The kind of a node, by which rules choose the nodes they look at. -/
inductive NodeKind where
  | file
  | classDecl
  | function
  | method
  | property
  | param
  | namespaceBlock
  | declareBlock
  | useNames
  | expression
  | echo
  | returnValue
  | ifElse
  | forLoop
  | whileLoop
  | doWhile
  | foreach
  | switch
  | tryCatch
  | breakLoop
  | continueLoop
  | goto
  | label
  | global
  | block
  | nop
  | var
  | literal
  | constFetch
  | classConstFetch
  | array
  | new
  | call
  | methodCall
  | staticCall
  | propertyFetch
  | staticPropertyFetch
  | arrayDimFetch
  | assign
  | binary
  | unary
  | ternary
  | closure
  | arrowFunction
  | errorSuppress
  | throw
  | other
  deriving DecidableEq, Repr, Inhabited

namespace NodeKind

/-- All kinds: declarations, then statements, then expressions. -/
def all : List NodeKind :=
  [file, classDecl, function, method, property, param, namespaceBlock, declareBlock, useNames,
   expression, echo, returnValue, ifElse, forLoop, whileLoop, doWhile, foreach, switch, tryCatch,
   breakLoop, continueLoop, goto, label, global, block, nop, var, literal, constFetch,
   classConstFetch, array, new, call, methodCall, staticCall, propertyFetch, staticPropertyFetch,
   arrayDimFetch, assign, binary, unary, ternary, closure, arrowFunction, errorSuppress, throw,
   other]

/-- The written name of a kind. -/
def word : NodeKind → String
  | file => "file"
  | classDecl => "class"
  | function => "function"
  | method => "method"
  | property => "property"
  | param => "param"
  | namespaceBlock => "namespace"
  | declareBlock => "declare"
  | useNames => "use"
  | expression => "expression"
  | echo => "echo"
  | returnValue => "return"
  | ifElse => "if"
  | forLoop => "for"
  | whileLoop => "while"
  | doWhile => "do_while"
  | foreach => "foreach"
  | switch => "switch"
  | tryCatch => "try"
  | breakLoop => "break"
  | continueLoop => "continue"
  | goto => "goto"
  | label => "label"
  | global => "global"
  | block => "block"
  | nop => "nop"
  | var => "variable"
  | literal => "literal"
  | constFetch => "const_fetch"
  | classConstFetch => "class_const_fetch"
  | array => "array"
  | new => "new"
  | call => "call"
  | methodCall => "method_call"
  | staticCall => "static_call"
  | propertyFetch => "property_fetch"
  | staticPropertyFetch => "static_property_fetch"
  | arrayDimFetch => "array_dim_fetch"
  | assign => "assign"
  | binary => "binary"
  | unary => "unary"
  | ternary => "ternary"
  | closure => "closure"
  | arrowFunction => "arrow_function"
  | errorSuppress => "error_suppress"
  | throw => "throw"
  | other => "other_expr"

/-- The kind with the given written name. -/
def ofWord? (w : String) : Option NodeKind := all.find? fun k => k.word == w

/-- A word written with capitals in place of underscores: `do_while` becomes `DoWhile`. -/
def capitalize : Bool → List Char → List Char
  | _, [] => []
  | atStart, c :: cs =>
    if c = '_' then capitalize true cs
    else (if atStart then c.toUpper else c) :: capitalize false cs

/-- The name of a kind in the text of an error. -/
def title (k : NodeKind) : String := String.ofList (capitalize true k.word.toList)

end NodeKind

/-- The kind of node that shows a statement. -/
def StmtKind.nodeKind : StmtKind → NodeKind
  | .namespaceBlock .. => .namespaceBlock
  | .declareBlock .. => .declareBlock
  | .useNames .. => .useNames
  | .classDecl .. => .classDecl
  | .functionDecl .. => .function
  | .expression .. => .expression
  | .echo .. => .echo
  | .returnValue .. => .returnValue
  | .ifElse .. => .ifElse
  | .forLoop .. => .forLoop
  | .whileLoop .. => .whileLoop
  | .doWhile .. => .doWhile
  | .foreach .. => .foreach
  | .switch .. => .switch
  | .tryCatch .. => .tryCatch
  | .breakLoop => .breakLoop
  | .continueLoop => .continueLoop
  | .goto .. => .goto
  | .label .. => .label
  | .global .. => .global
  | .block .. => .block
  | .nop => .nop

/-- The kind of node that shows an expression. -/
def ExprKind.nodeKind : ExprKind → NodeKind
  | .var .. => .var
  | .literal .. => .literal
  | .constFetch .. => .constFetch
  | .classConstFetch .. => .classConstFetch
  | .array .. => .array
  | .new .. => .new
  | .call .. => .call
  | .methodCall .. => .methodCall
  | .staticCall .. => .staticCall
  | .propertyFetch .. => .propertyFetch
  | .staticPropertyFetch .. => .staticPropertyFetch
  | .arrayDimFetch .. => .arrayDimFetch
  | .assign .. => .assign
  | .binary .. => .binary
  | .unary .. => .unary
  | .ternary .. => .ternary
  | .closure .. => .closure
  | .arrowFunction .. => .arrowFunction
  | .errorSuppress .. => .errorSuppress
  | .throw .. => .throw
  | .other .. => .other

/-! ## Nodes -/

/-- A part of the tree as a walk sees it. -/
inductive Node where
  | file (file : SourceFile)
  | stmt (stmt : Stmt)
  | expr (expr : Expr)
  | classDecl (decl : ClassDecl)
  | function (decl : FunctionDecl)
  | method (decl : FunctionDecl)
  | property (decl : PropertyDecl)
  | param (param : Param)

namespace Node

/-- The node that shows a statement: the declaration itself for one that only wraps a
declaration. -/
def ofStmt (s : Stmt) : Node :=
  match s.kind with
  | .classDecl decl => .classDecl decl
  | .functionDecl decl => .function decl
  | _ => .stmt s

def kind : Node → NodeKind
  | file _ => .file
  | stmt s => s.kind.nodeKind
  | expr e => e.kind.nodeKind
  | classDecl _ => .classDecl
  | function _ => .function
  | method _ => .method
  | property _ => .property
  | param _ => .param

def span : Node → Span
  | file f => f.span
  | stmt s => s.span
  | expr e => e.span
  | classDecl d => d.span
  | function d => d.span
  | method d => d.span
  | property d => d.span
  | param p => p.span

/-- The line on which findings about the node are reported. -/
def line (n : Node) : Nat := n.span.firstLine

/-! ## Children -/

/-- The nodes of a list of statements. -/
def ofStmts (body : List Stmt) : List Node := body.map ofStmt

/-- The nodes of a list of expressions. -/
def ofExprs (es : List Expr) : List Node := es.map expr

/-- The node of an expression that may be absent. -/
def ofExpr? (e : Option Expr) : List Node := ofExprs e.toList

/-- The nodes of a list of statements that may be absent. -/
def ofStmts? (body : Option (List Stmt)) : List Node := ofStmts (body.getD [])

/-- The nodes inside a reference to a class. -/
def ofClassRef : ClassRef → List Node
  | .name _ => []
  | .expr e => [expr e]
  | .anonymous d => [classDecl d]

/-- The nodes inside what a call calls. -/
def ofCallee : Callee → List Node
  | .name _ => []
  | .expr e => [expr e]

/-- The node of a member of a class; constants and used traits hold none. -/
def ofMember : Member → List Node
  | .property d => [property d]
  | .method d => [method d]
  | .constant .. => []
  | .traitUse .. => []

def ofElseIf (b : ElseIf) : List Node := expr b.condition :: ofStmts b.body

def ofCase (c : Case) : List Node := ofExpr? c.test ++ ofStmts c.body

def ofCatch (c : Catch) : List Node := ofStmts c.body

def ofItem (i : ArrayItem) : List Node := ofExpr? i.key ++ [expr i.value]

/-- The nodes directly below a statement. -/
def ofStmtKind : StmtKind → List Node
  | .namespaceBlock _ body => ofStmts body
  | .declareBlock _ => []
  | .useNames _ => []
  | .classDecl decl => [classDecl decl]
  | .functionDecl decl => [function decl]
  | .expression e => [expr e]
  | .echo es => ofExprs es
  | .returnValue e => ofExpr? e
  | .ifElse condition thenBody elseIfs otherwise =>
    expr condition :: (ofStmts thenBody ++ elseIfs.flatMap ofElseIf ++ ofStmts? otherwise)
  | .forLoop init condition step body =>
    ofExprs init ++ ofExprs condition ++ ofExprs step ++ ofStmts body
  | .whileLoop condition body => expr condition :: ofStmts body
  | .doWhile condition body => ofStmts body ++ [expr condition]
  | .foreach iterable key value body =>
    expr iterable :: (ofExpr? key ++ expr value :: ofStmts body)
  | .switch subject cases => expr subject :: cases.flatMap ofCase
  | .tryCatch body catches cleanup => ofStmts body ++ catches.flatMap ofCatch ++ ofStmts? cleanup
  | .breakLoop => []
  | .continueLoop => []
  | .goto _ => []
  | .label _ => []
  | .global _ => []
  | .block body => ofStmts body
  | .nop => []

/-- The nodes directly below an expression. -/
def ofExprKind : ExprKind → List Node
  | .var _ => []
  | .literal _ => []
  | .constFetch _ => []
  | .classConstFetch owner _ => ofClassRef owner
  | .array items => items.flatMap ofItem
  | .new owner args => ofClassRef owner ++ ofExprs args
  | .call callee args => ofCallee callee ++ ofExprs args
  | .methodCall receiver _ args => expr receiver :: ofExprs args
  | .staticCall owner _ args => ofClassRef owner ++ ofExprs args
  | .propertyFetch object _ => [expr object]
  | .staticPropertyFetch owner _ => ofClassRef owner
  | .arrayDimFetch array index => expr array :: ofExpr? index
  | .assign target value => [expr target, expr value]
  | .binary _ left right => [expr left, expr right]
  | .unary _ operand => [expr operand]
  | .ternary condition thenValue otherwise =>
    expr condition :: (ofExpr? thenValue ++ [expr otherwise])
  | .closure params _ body => params.map param ++ ofStmts body
  | .arrowFunction params body => params.map param ++ [expr body]
  | .errorSuppress operand => [expr operand]
  | .throw value => [expr value]
  | .other _ children => ofExprs children

/-- The nodes directly below a node, in the order of the source. -/
def children : Node → List Node
  | file f => ofStmts f.stmts
  | stmt s => ofStmtKind s.kind
  | expr e => ofExprKind e.kind
  | classDecl d => d.members.flatMap ofMember
  | function d => d.params.map param ++ ofStmts? d.body
  | method d => d.params.map param ++ ofStmts? d.body
  | property d => ofExprs d.defaults
  | param p => ofExpr? p.default

/-! ## Weight -/

/-- The size of the piece of tree that a node shows. -/
noncomputable def weight : Node → Nat
  | file f => sizeOf f
  | stmt s => sizeOf s
  | expr e => sizeOf e
  | classDecl d => sizeOf d
  | function d => sizeOf d
  | method d => sizeOf d
  | property d => sizeOf d
  | param p => sizeOf p

/-- Total weight of a list of nodes. -/
noncomputable def totalWeight (ns : List Node) : Nat := total weight ns

@[simp] theorem totalWeight_nil : totalWeight [] = 0 := rfl

@[simp] theorem totalWeight_cons (n : Node) (ns : List Node) :
    totalWeight (n :: ns) = n.weight + totalWeight ns := rfl

@[simp] theorem totalWeight_append (xs ys : List Node) :
    totalWeight (xs ++ ys) = totalWeight xs + totalWeight ys := total_append weight xs ys

theorem weight_ofStmt_le (s : Stmt) : (ofStmt s).weight ≤ sizeOf s := by
  obtain ⟨span, kind, comments⟩ := s
  cases kind <;> simp [ofStmt, weight] <;> omega

theorem totalWeight_ofStmts_lt (body : List Stmt) : totalWeight (ofStmts body) < sizeOf body := by
  induction body with
  | nil => simp [ofStmts]
  | cons s rest ih =>
    have h := weight_ofStmt_le s
    simp only [ofStmts, List.map_cons, totalWeight_cons, List.cons.sizeOf_spec] at ih ⊢
    omega

theorem totalWeight_ofExprs_lt (es : List Expr) : totalWeight (ofExprs es) < sizeOf es := by
  induction es with
  | nil => simp [ofExprs]
  | cons e rest ih =>
    simp only [ofExprs, List.map_cons, totalWeight_cons, List.cons.sizeOf_spec, weight] at ih ⊢
    omega

theorem totalWeight_ofExpr?_lt (e : Option Expr) : totalWeight (ofExpr? e) < sizeOf e := by
  cases e with
  | none => simp [ofExpr?, ofExprs]
  | some e => simp [ofExpr?, ofExprs, weight]

theorem totalWeight_ofStmts?_lt (body : Option (List Stmt)) :
    totalWeight (ofStmts? body) < sizeOf body := by
  cases body with
  | none => simp [ofStmts?, ofStmts]
  | some body =>
    have h := totalWeight_ofStmts_lt body
    simp only [ofStmts?, Option.getD_some, Option.some.sizeOf_spec]
    omega

theorem totalWeight_ofParams_lt (ps : List Param) : totalWeight (ps.map param) < sizeOf ps := by
  induction ps with
  | nil => simp
  | cons p rest ih =>
    simp only [List.map_cons, totalWeight_cons, List.cons.sizeOf_spec, weight]
    omega

/-- A list of parts weighs less than its size if no part weighs more than its own size. -/
theorem totalWeight_flatMap_lt {α : Type} [SizeOf α] {parts : α → List Node}
    (h : ∀ a, totalWeight (parts a) ≤ sizeOf a) (as : List α) :
    totalWeight (as.flatMap parts) < sizeOf as := by
  induction as with
  | nil => simp
  | cons a rest ih =>
    have ha := h a
    simp only [List.flatMap_cons, totalWeight_append, List.cons.sizeOf_spec]
    omega

theorem totalWeight_ofClassRef_lt (r : ClassRef) : totalWeight (ofClassRef r) < sizeOf r := by
  cases r with
  | name n =>
    simp only [ofClassRef, totalWeight_nil, ClassRef.name.sizeOf_spec]
    omega
  | expr e => simp [ofClassRef, weight]
  | anonymous d => simp [ofClassRef, weight]

theorem totalWeight_ofCallee_lt (c : Callee) : totalWeight (ofCallee c) < sizeOf c := by
  cases c with
  | name n =>
    simp only [ofCallee, totalWeight_nil, Callee.name.sizeOf_spec]
    omega
  | expr e => simp [ofCallee, weight]

theorem totalWeight_ofMember_le (m : Member) : totalWeight (ofMember m) ≤ sizeOf m := by
  cases m <;> simp [ofMember, weight]

theorem totalWeight_ofElseIf_le (b : ElseIf) : totalWeight (ofElseIf b) ≤ sizeOf b := by
  obtain ⟨span, condition, body⟩ := b
  have := totalWeight_ofStmts_lt body
  simp [ofElseIf, weight]
  omega

theorem totalWeight_ofCase_le (c : Case) : totalWeight (ofCase c) ≤ sizeOf c := by
  obtain ⟨test, body⟩ := c
  have := totalWeight_ofExpr?_lt test
  have := totalWeight_ofStmts_lt body
  simp [ofCase]
  omega

theorem totalWeight_ofCatch_le (c : Catch) : totalWeight (ofCatch c) ≤ sizeOf c := by
  obtain ⟨types, var, body⟩ := c
  have := totalWeight_ofStmts_lt body
  simp [ofCatch]
  omega

theorem totalWeight_ofItem_le (i : ArrayItem) : totalWeight (ofItem i) ≤ sizeOf i := by
  obtain ⟨key, value⟩ := i
  have := totalWeight_ofExpr?_lt key
  simp [ofItem, weight]
  omega

theorem totalWeight_ofStmtKind_lt (k : StmtKind) : totalWeight (ofStmtKind k) < sizeOf k := by
  cases k with
  | namespaceBlock name body =>
    have := totalWeight_ofStmts_lt body
    simp [ofStmtKind]; omega
  | echo es =>
    have := totalWeight_ofExprs_lt es
    simp [ofStmtKind]; omega
  | returnValue e =>
    have := totalWeight_ofExpr?_lt e
    simp [ofStmtKind]; omega
  | ifElse condition thenBody elseIfs otherwise =>
    have := totalWeight_ofStmts_lt thenBody
    have := totalWeight_flatMap_lt totalWeight_ofElseIf_le elseIfs
    have := totalWeight_ofStmts?_lt otherwise
    simp [ofStmtKind, weight]; omega
  | forLoop init condition step body =>
    have := totalWeight_ofExprs_lt init
    have := totalWeight_ofExprs_lt condition
    have := totalWeight_ofExprs_lt step
    have := totalWeight_ofStmts_lt body
    simp [ofStmtKind]; omega
  | whileLoop condition body =>
    have := totalWeight_ofStmts_lt body
    simp [ofStmtKind, weight]; omega
  | doWhile condition body =>
    have := totalWeight_ofStmts_lt body
    simp [ofStmtKind, weight]; omega
  | foreach iterable key value body =>
    have := totalWeight_ofExpr?_lt key
    have := totalWeight_ofStmts_lt body
    simp [ofStmtKind, weight]; omega
  | switch subject cases =>
    have := totalWeight_flatMap_lt totalWeight_ofCase_le cases
    simp [ofStmtKind, weight]; omega
  | tryCatch body catches cleanup =>
    have := totalWeight_ofStmts_lt body
    have := totalWeight_flatMap_lt totalWeight_ofCatch_le catches
    have := totalWeight_ofStmts?_lt cleanup
    simp [ofStmtKind]; omega
  | block body =>
    have := totalWeight_ofStmts_lt body
    simp [ofStmtKind]; omega
  | declareBlock _ | useNames _ | goto _ | label _ | global _ =>
    simp only [ofStmtKind, totalWeight_nil, StmtKind.declareBlock.sizeOf_spec,
      StmtKind.useNames.sizeOf_spec, StmtKind.goto.sizeOf_spec, StmtKind.label.sizeOf_spec,
      StmtKind.global.sizeOf_spec]
    omega
  | _ => simp [ofStmtKind, weight]

theorem totalWeight_ofExprKind_lt (k : ExprKind) : totalWeight (ofExprKind k) < sizeOf k := by
  cases k with
  | classConstFetch owner name =>
    have := totalWeight_ofClassRef_lt owner
    simp [ofExprKind]; omega
  | array items =>
    have := totalWeight_flatMap_lt totalWeight_ofItem_le items
    simp [ofExprKind]; omega
  | new owner args =>
    have := totalWeight_ofClassRef_lt owner
    have := totalWeight_ofExprs_lt args
    simp [ofExprKind]; omega
  | call callee args =>
    have := totalWeight_ofCallee_lt callee
    have := totalWeight_ofExprs_lt args
    simp [ofExprKind]; omega
  | methodCall receiver method args =>
    have := totalWeight_ofExprs_lt args
    simp [ofExprKind, weight]; omega
  | staticCall owner method args =>
    have := totalWeight_ofClassRef_lt owner
    have := totalWeight_ofExprs_lt args
    simp [ofExprKind]; omega
  | staticPropertyFetch owner property =>
    have := totalWeight_ofClassRef_lt owner
    simp [ofExprKind]; omega
  | arrayDimFetch array index =>
    have := totalWeight_ofExpr?_lt index
    simp [ofExprKind, weight]; omega
  | ternary condition thenValue otherwise =>
    have := totalWeight_ofExpr?_lt thenValue
    simp [ofExprKind, weight]; omega
  | closure params uses body =>
    have := totalWeight_ofParams_lt params
    have := totalWeight_ofStmts_lt body
    simp [ofExprKind]; omega
  | arrowFunction params body =>
    have := totalWeight_ofParams_lt params
    simp [ofExprKind, weight]; omega
  | other label children =>
    have := totalWeight_ofExprs_lt children
    simp [ofExprKind]; omega
  | _ => simp [ofExprKind, weight] <;> omega

/-- The children of a node together weigh less than the node. -/
theorem sum_weight_children_lt (n : Node) : totalWeight n.children < n.weight := by
  cases n with
  | file f =>
    obtain ⟨path, text, stmts⟩ := f
    have := totalWeight_ofStmts_lt stmts
    simp [children, weight]; omega
  | stmt s =>
    obtain ⟨span, kind, comments⟩ := s
    have := totalWeight_ofStmtKind_lt kind
    simp [children, weight]; omega
  | expr e =>
    obtain ⟨span, kind, type⟩ := e
    have := totalWeight_ofExprKind_lt kind
    simp [children, weight]; omega
  | classDecl d =>
    obtain ⟨span, name, members⟩ := d
    have := totalWeight_flatMap_lt totalWeight_ofMember_le members
    simp [children, weight]; omega
  | function d =>
    obtain ⟨span, name, params, body, isAbstract, isStatic, visibility⟩ := d
    have := totalWeight_ofParams_lt params
    have := totalWeight_ofStmts?_lt body
    simp [children, weight]; omega
  | method d =>
    obtain ⟨span, name, params, body, isAbstract, isStatic, visibility⟩ := d
    have := totalWeight_ofParams_lt params
    have := totalWeight_ofStmts?_lt body
    simp [children, weight]; omega
  | property d =>
    obtain ⟨span, names, visibility, isStatic, defaults⟩ := d
    have := totalWeight_ofExprs_lt defaults
    simp [children, weight]; omega
  | param p =>
    obtain ⟨span, name, promoted, default⟩ := p
    have := totalWeight_ofExpr?_lt default
    simp [children, weight]; omega

end Node

end Tree
end SafetyLint
