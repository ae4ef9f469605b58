import SafetyLint.Tree.File

/-!
# Building trees

Constructors for those who make trees in code.  Every node starts on line one with an unknown type,
unless its parts say more; `onLine`, `onLines` and `typed` change that afterwards.
-/

namespace SafetyLint
namespace Tree

namespace Expr

/-- An expression on line one with an unknown type. -/
def ofKind (kind : ExprKind) : Expr := ⟨.line 1, kind, .unknown⟩

/-- The expression on another line. -/
def onLine (e : Expr) (n : Nat) : Expr := { e with span := .line n }

/-- The expression on other lines. -/
def onLines (e : Expr) (first last : Nat) : Expr := { e with span := .between first last }

/-- The expression with another type. -/
def typed (e : Expr) (t : Ty) : Expr := { e with type := t }

def var (name : String) : Expr := ofKind (.var name)

/-- An integer literal; its type knows its value. -/
def int (value : Int) : Expr := (ofKind (.literal (.int value))).typed (.constantInt value)

def text (value : String) : Expr := (ofKind (.literal (.text value))).typed .string

def constant (name : String) : Expr := ofKind (.constFetch name)

/-- An array without keys; its type knows its size. -/
def array (values : List Expr) : Expr :=
  (ofKind (.array (values.map fun v => ⟨none, v⟩))).typed (.array (some values.length))

/-- A new instance of a class. -/
def new (className : String) (args : List Expr) : Expr := ofKind (.new (.name className) args)

def call (name : String) (args : List Expr) : Expr := ofKind (.call (.name name) args)

/-- A call of the function that an expression gives. -/
def callValue (target : Expr) (args : List Expr) : Expr := ofKind (.call (.expr target) args)

def methodCall (receiver : Expr) (method : String) (args : List Expr) : Expr :=
  ofKind (.methodCall receiver method args)

def staticCall (className method : String) (args : List Expr) : Expr :=
  ofKind (.staticCall (.name className) method args)

def property (object : Expr) (name : String) : Expr := ofKind (.propertyFetch object name)

/-- The element of an array at an index. -/
def element (array index : Expr) : Expr := ofKind (.arrayDimFetch array (some index))

def assign (target value : Expr) : Expr := ofKind (.assign target value)

def binary (op : BinaryOp) (left right : Expr) : Expr := ofKind (.binary op left right)

def ternary (condition thenValue otherwise : Expr) : Expr :=
  ofKind (.ternary condition (some thenValue) otherwise)

/-- A closure without parameters. -/
def closure (body : List Stmt) : Expr := ofKind (.closure [] [] body)

/-- An arrow function without parameters. -/
def arrow (body : Expr) : Expr := ofKind (.arrowFunction [] body)

def suppress (operand : Expr) : Expr := ofKind (.errorSuppress operand)

def raise (value : Expr) : Expr := ofKind (.throw value)

end Expr

namespace Param

/-- A parameter on one line. -/
def named (name : String) (line : Nat) : Param := ⟨.line line, name, none, none⟩

/-- A parameter that also declares a property. -/
def promotedTo (name : String) (visibility : Visibility) (line : Nat) : Param :=
  { named name line with promoted := some visibility }

end Param

namespace FunctionDecl

/-- A function with an empty body. -/
def named (name : String) (first last : Nat) : FunctionDecl :=
  ⟨.between first last, name, [], some [], false, false, none⟩

def withParams (f : FunctionDecl) (params : List Param) : FunctionDecl := { f with params }

def withBody (f : FunctionDecl) (body : List Stmt) : FunctionDecl := { f with body := some body }

/-- The function without a body. -/
def toAbstract (f : FunctionDecl) : FunctionDecl := { f with isAbstract := true, body := none }

end FunctionDecl

namespace PropertyDecl

/-- A declaration of one property on one line. -/
def named (name : String) (visibility : Visibility) (line : Nat) : PropertyDecl :=
  ⟨.line line, [name], visibility, false, []⟩

def toStatic (p : PropertyDecl) : PropertyDecl := { p with isStatic := true }

end PropertyDecl

namespace ClassDecl

/-- A class without members. -/
def named (name : String) (first last : Nat) : ClassDecl := ⟨.between first last, some name, []⟩

/-- Adds a member behind those that are there. -/
def withMember (d : ClassDecl) (m : Member) : ClassDecl := { d with members := d.members ++ [m] }

/-- The methods of a class. -/
def methods (d : ClassDecl) : List FunctionDecl :=
  d.members.filterMap fun
    | .method f => some f
    | _ => none

/-- The property declarations of a class. -/
def properties (d : ClassDecl) : List PropertyDecl :=
  d.members.filterMap fun
    | .property p => some p
    | _ => none

end ClassDecl

namespace Stmt

/-- A statement on line one without comments. -/
def ofKind (kind : StmtKind) : Stmt := ⟨.line 1, kind, []⟩

/-- The statement on another line. -/
def onLine (s : Stmt) (n : Nat) : Stmt := { s with span := .line n }

/-- The statement on other lines. -/
def onLines (s : Stmt) (first last : Nat) : Stmt := { s with span := .between first last }

/-- Adds a comment behind those that are there. -/
def withComment (s : Stmt) (comment : String) : Stmt :=
  { s with comments := s.comments ++ [comment] }

/-- An expression as a statement, on the lines of the expression. -/
def ofExpr (e : Expr) : Stmt := { ofKind (.expression e) with span := e.span }

def ret (e : Option Expr) : Stmt := ofKind (.returnValue e)

/-- A class as a statement, on the lines of the class. -/
def ofClass (d : ClassDecl) : Stmt := { ofKind (.classDecl d) with span := d.span }

/-- A function as a statement, on the lines of the function. -/
def ofFunction (d : FunctionDecl) : Stmt := { ofKind (.functionDecl d) with span := d.span }

def namespaceBlock (name : String) (body : List Stmt) : Stmt :=
  ofKind (.namespaceBlock (some name) body)

/-- A declare statement with one directive. -/
def declareBlock (name : String) (value : Scalar) : Stmt := ofKind (.declareBlock [⟨name, value⟩])

def goto (label : String) : Stmt := ofKind (.goto label)

def global (names : List String) : Stmt := ofKind (.global names)

def ifThen (condition : Expr) (thenBody : List Stmt) : Stmt :=
  ofKind (.ifElse condition thenBody [] none)

def ifElse (condition : Expr) (thenBody otherwise : List Stmt) : Stmt :=
  ofKind (.ifElse condition thenBody [] (some otherwise))

/-- Adds a branch to a conditional, on the lines of its condition; other statements stay as they
are. -/
def elseIf (s : Stmt) (condition : Expr) (body : List Stmt) : Stmt :=
  match s.kind with
  | .ifElse c thenBody elseIfs otherwise =>
    { s with
      kind := .ifElse c thenBody (elseIfs ++ [⟨condition.span, condition, body⟩]) otherwise }
  | _ => s

def forLoop (init condition step : List Expr) (body : List Stmt) : Stmt :=
  ofKind (.forLoop init condition step body)

def whileLoop (condition : Expr) (body : List Stmt) : Stmt := ofKind (.whileLoop condition body)

def doWhile (condition : Expr) (body : List Stmt) : Stmt := ofKind (.doWhile condition body)

/-- A loop over the values of an iterable. -/
def foreach (iterable : Expr) (value : String) (body : List Stmt) : Stmt :=
  ofKind (.foreach iterable none (.var value) body)

end Stmt

end Tree
end SafetyLint
