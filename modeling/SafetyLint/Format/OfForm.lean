import SafetyLint.Format.Words
import SafetyLint.Tree.File

/-!
# Trees of forms

The tree that a form describes.  These functions are total: where a form has another shape than the
part of the tree asks for, a plain value of that part stands in.  A form that was read with the
layout of a source file never comes to that.
-/

namespace SafetyLint
namespace Format

open SafetyLint.Tree

/-! ## Parts without recursion -/

def textOf : Form → String
  | .text s => s
  | _ => ""

def textOf? : Form → Option String
  | .text s => some s
  | _ => none

/-- The items of a list; anything else has none. -/
def itemsOf : Form → List Form
  | .list items => items
  | _ => []

def textsOf (f : Form) : List String := (itemsOf f).map textOf

def flagOf : Form → Bool
  | .flag b => b
  | _ => false

def intOf : Form → Int
  | .int i => i
  | _ => 0

def natOf (f : Form) : Nat := (intOf f).toNat

def natOf? : Form → Option Nat
  | .int i => some i.toNat
  | _ => none

def scalarOf : Form → Scalar
  | .scalar x => x
  | _ => .bool false

def wordOf : Form → String
  | .variant name _ => name
  | _ => ""

def spanOf : Form → Span
  | .record [first, last] => ⟨natOf first, natOf last⟩
  | _ => ⟨0, 0⟩

def visibilityOf (f : Form) : Visibility := .ofWord (wordOf f)

def visibilityOf? : Form → Option Visibility
  | .variant name _ => some (.ofWord name)
  | _ => none

def directiveOf : Form → Directive
  | .record [name, value] => ⟨textOf name, scalarOf value⟩
  | _ => ⟨"", .bool false⟩

def tyOf : Form → Ty
  | .variant "mixed" _ => .mixed
  | .variant "void" _ => .void
  | .variant "null" _ => .null
  | .variant "bool" _ => .bool
  | .variant "int" _ => .int
  | .variant "float" _ => .float
  | .variant "string" _ => .string
  | .variant "constant_int" [value] => .constantInt (intOf value)
  | .variant "constant_scalar" [value] => .constantScalar (scalarOf value)
  | .variant "array" [size] => .array (natOf? size)
  | .variant "object" [className, countable] => .object (textOf className) (flagOf countable)
  | .variant "iterable" [generator] => .iterable (flagOf generator)
  | _ => .unknown

/-! ## The recursive family -/

mutual

def stmtOf : Form → Stmt
  | .record [span, kind, comments] => ⟨spanOf span, stmtKindOf kind, textsOf comments⟩
  | _ => ⟨⟨0, 0⟩, .nop, []⟩

def stmtList : List Form → List Stmt
  | [] => []
  | f :: rest => stmtOf f :: stmtList rest

def bodyOf : Form → List Stmt
  | .list items => stmtList items
  | _ => []

def bodyOf? : Form → Option (List Stmt)
  | .list items => some (stmtList items)
  | _ => none

def stmtKindOf : Form → StmtKind
  | .variant "namespace" [name, body] => .namespaceBlock (textOf? name) (bodyOf body)
  | .variant "declare" [directives] => .declareBlock ((itemsOf directives).map directiveOf)
  | .variant "use" [names] => .useNames (textsOf names)
  | .variant "class" [span, name, members] =>
    .classDecl ⟨spanOf span, textOf? name, membersOf members⟩
  | .variant "function" [span, name, params, body, isAbstract, isStatic, visibility] =>
    .functionDecl ⟨spanOf span, textOf name, paramsOf params, bodyOf? body, flagOf isAbstract,
      flagOf isStatic, visibilityOf? visibility⟩
  | .variant "expression" [e] => .expression (exprOf e)
  | .variant "echo" [es] => .echo (exprsOf es)
  | .variant "return" [e] => .returnValue (exprOf? e)
  | .variant "if" [condition, thenBody, elseIfs, otherwise] =>
    .ifElse (exprOf condition) (bodyOf thenBody) (elseIfsOf elseIfs) (bodyOf? otherwise)
  | .variant "for" [init, condition, step, body] =>
    .forLoop (exprsOf init) (exprsOf condition) (exprsOf step) (bodyOf body)
  | .variant "while" [condition, body] => .whileLoop (exprOf condition) (bodyOf body)
  | .variant "do_while" [condition, body] => .doWhile (exprOf condition) (bodyOf body)
  | .variant "foreach" [iterable, key, value, body] =>
    .foreach (exprOf iterable) (exprOf? key) (exprOf value) (bodyOf body)
  | .variant "switch" [subject, cases] => .switch (exprOf subject) (casesOf cases)
  | .variant "try" [body, catches, cleanup] =>
    .tryCatch (bodyOf body) (catchesOf catches) (bodyOf? cleanup)
  | .variant "break" _ => .breakLoop
  | .variant "continue" _ => .continueLoop
  | .variant "goto" [label] => .goto (textOf label)
  | .variant "label" [name] => .label (textOf name)
  | .variant "global" [names] => .global (textsOf names)
  | .variant "block" [body] => .block (bodyOf body)
  | _ => .nop

def elseIfsOf : Form → List ElseIf
  | .list items => elseIfList items
  | _ => []

def elseIfList : List Form → List ElseIf
  | [] => []
  | .record [span, condition, body] :: rest =>
    ⟨spanOf span, exprOf condition, bodyOf body⟩ :: elseIfList rest
  | _ :: rest => elseIfList rest

def casesOf : Form → List Case
  | .list items => caseList items
  | _ => []

def caseList : List Form → List Case
  | [] => []
  | .record [test, body] :: rest => ⟨exprOf? test, bodyOf body⟩ :: caseList rest
  | _ :: rest => caseList rest

def catchesOf : Form → List Catch
  | .list items => catchList items
  | _ => []

def catchList : List Form → List Catch
  | [] => []
  | .record [types, var, body] :: rest =>
    ⟨textsOf types, textOf? var, bodyOf body⟩ :: catchList rest
  | _ :: rest => catchList rest

def membersOf : Form → List Member
  | .list items => memberList items
  | _ => []

def memberList : List Form → List Member
  | [] => []
  | .variant "property" [span, names, visibility, isStatic, defaults] :: rest =>
    .property ⟨spanOf span, textsOf names, visibilityOf visibility, flagOf isStatic,
      exprsOf defaults⟩ :: memberList rest
  | .variant "method" [span, name, params, body, isAbstract, isStatic, visibility] :: rest =>
    .method ⟨spanOf span, textOf name, paramsOf params, bodyOf? body, flagOf isAbstract,
      flagOf isStatic, visibilityOf? visibility⟩ :: memberList rest
  | .variant "constant" [span, names] :: rest =>
    .constant (spanOf span) (textsOf names) :: memberList rest
  | .variant "trait_use" [span, names] :: rest =>
    .traitUse (spanOf span) (textsOf names) :: memberList rest
  | _ :: rest => memberList rest

def paramsOf : Form → List Param
  | .list items => paramList items
  | _ => []

def paramList : List Form → List Param
  | [] => []
  | .record [span, name, promoted, default] :: rest =>
    ⟨spanOf span, textOf name, visibilityOf? promoted, exprOf? default⟩ :: paramList rest
  | _ :: rest => paramList rest

def exprOf : Form → Expr
  | .record [span, kind, type] => ⟨spanOf span, exprKindOf kind, tyOf type⟩
  | _ => ⟨⟨0, 0⟩, .other "" [], .unknown⟩

def exprsOf : Form → List Expr
  | .list items => exprList items
  | _ => []

def exprList : List Form → List Expr
  | [] => []
  | f :: rest => exprOf f :: exprList rest

def exprOf? : Form → Option Expr
  | .record [span, kind, type] => some ⟨spanOf span, exprKindOf kind, tyOf type⟩
  | _ => none

def exprKindOf : Form → ExprKind
  | .variant "variable" [name] => .var (textOf name)
  | .variant "literal" [value] => .literal (scalarOf value)
  | .variant "const_fetch" [name] => .constFetch (textOf name)
  | .variant "class_const_fetch" [owner, name] => .classConstFetch (classRefOf owner) (textOf name)
  | .variant "array" [items] => .array (arrayItemsOf items)
  | .variant "new" [owner, args] => .new (classRefOf owner) (exprsOf args)
  | .variant "call" [callee, args] => .call (calleeOf callee) (exprsOf args)
  | .variant "method_call" [receiver, method, args] =>
    .methodCall (exprOf receiver) (textOf method) (exprsOf args)
  | .variant "static_call" [owner, method, args] =>
    .staticCall (classRefOf owner) (textOf method) (exprsOf args)
  | .variant "property_fetch" [object, property] => .propertyFetch (exprOf object) (textOf property)
  | .variant "static_property_fetch" [owner, property] =>
    .staticPropertyFetch (classRefOf owner) (textOf property)
  | .variant "array_dim_fetch" [array, index] => .arrayDimFetch (exprOf array) (exprOf? index)
  | .variant "assign" [target, value] => .assign (exprOf target) (exprOf value)
  | .variant "binary" [op, left, right] =>
    .binary (.ofWord (wordOf op)) (exprOf left) (exprOf right)
  | .variant "unary" [op, operand] => .unary (.ofWord (wordOf op)) (exprOf operand)
  | .variant "ternary" [condition, thenValue, otherwise] =>
    .ternary (exprOf condition) (exprOf? thenValue) (exprOf otherwise)
  | .variant "closure" [params, uses, body] =>
    .closure (paramsOf params) (textsOf uses) (bodyOf body)
  | .variant "arrow_function" [params, body] => .arrowFunction (paramsOf params) (exprOf body)
  | .variant "error_suppress" [operand] => .errorSuppress (exprOf operand)
  | .variant "throw" [value] => .throw (exprOf value)
  | .variant "other" [label, children] => .other (textOf label) (exprsOf children)
  | _ => .other "" []

def calleeOf : Form → Callee
  | .variant "expr" [e] => .expr (exprOf e)
  | .variant _ [name] => .name (textOf name)
  | _ => .name ""

def classRefOf : Form → ClassRef
  | .variant "expr" [e] => .expr (exprOf e)
  | .variant "anonymous" [.record [span, name, members]] =>
    .anonymous ⟨spanOf span, textOf? name, membersOf members⟩
  | .variant _ [name] => .name (textOf name)
  | _ => .name ""

def arrayItemsOf : Form → List ArrayItem
  | .list items => arrayItemList items
  | _ => []

def arrayItemList : List Form → List ArrayItem
  | [] => []
  | .record [key, value] :: rest => ⟨exprOf? key, exprOf value⟩ :: arrayItemList rest
  | _ :: rest => arrayItemList rest

end

/-- The source file that a form describes. -/
def fileOf : Form → SourceFile
  | .record [path, text, stmts] => ⟨textOf path, textOf? text, bodyOf stmts⟩
  | _ => ⟨"", none, []⟩

end Format
end SafetyLint
