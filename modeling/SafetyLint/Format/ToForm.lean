import SafetyLint.Format.Words
import SafetyLint.Tree.File

/-!
# Forms of trees

The form of every part of a tree, by recursion over the tree.
-/

namespace SafetyLint
namespace Format

open SafetyLint.Tree

/-! ## Parts without recursion -/

def textForm? : Option String → Form
  | none => .nothing
  | some s => .text s

def textsForm (ss : List String) : Form := .list (ss.map .text)

def natForm (n : Nat) : Form := .int n

def spanForm (s : Span) : Form := .record [natForm s.firstLine, natForm s.lastLine]

def visibilityForm (v : Visibility) : Form := .variant v.word []

def visibilityForm? : Option Visibility → Form
  | none => .nothing
  | some v => visibilityForm v

def directiveForm (d : Directive) : Form := .record [.text d.name, .scalar d.value]

def tyForm : Ty → Form
  | .unknown => .variant "unknown" []
  | .mixed => .variant "mixed" []
  | .void => .variant "void" []
  | .null => .variant "null" []
  | .bool => .variant "bool" []
  | .int => .variant "int" []
  | .float => .variant "float" []
  | .string => .variant "string" []
  | .constantInt value => .variant "constant_int" [.int value]
  | .constantScalar value => .variant "constant_scalar" [.scalar value]
  | .array none => .variant "array" [.nothing]
  | .array (some size) => .variant "array" [natForm size]
  | .object className countable => .variant "object" [.text className, .flag countable]
  | .iterable generator => .variant "iterable" [.flag generator]

/-! ## The recursive family -/

mutual

def stmtForm : Stmt → Form
  | ⟨span, kind, comments⟩ => .record [spanForm span, stmtKindForm kind, textsForm comments]

def stmtForms : List Stmt → List Form
  | [] => []
  | s :: rest => stmtForm s :: stmtForms rest

def bodyForm? : Option (List Stmt) → Form
  | none => .nothing
  | some body => .list (stmtForms body)

def stmtKindForm : StmtKind → Form
  | .namespaceBlock name body => .variant "namespace" [textForm? name, .list (stmtForms body)]
  | .declareBlock directives => .variant "declare" [.list (directives.map directiveForm)]
  | .useNames names => .variant "use" [textsForm names]
  | .classDecl decl => .variant "class" (classFieldForms decl)
  | .functionDecl decl => .variant "function" (functionFieldForms decl)
  | .expression e => .variant "expression" [exprForm e]
  | .echo es => .variant "echo" [.list (exprForms es)]
  | .returnValue e => .variant "return" [exprForm? e]
  | .ifElse condition thenBody elseIfs otherwise =>
    .variant "if" [exprForm condition, .list (stmtForms thenBody), .list (elseIfForms elseIfs),
      bodyForm? otherwise]
  | .forLoop init condition step body =>
    .variant "for" [.list (exprForms init), .list (exprForms condition), .list (exprForms step),
      .list (stmtForms body)]
  | .whileLoop condition body => .variant "while" [exprForm condition, .list (stmtForms body)]
  | .doWhile condition body => .variant "do_while" [exprForm condition, .list (stmtForms body)]
  | .foreach iterable key value body =>
    .variant "foreach" [exprForm iterable, exprForm? key, exprForm value, .list (stmtForms body)]
  | .switch subject cases => .variant "switch" [exprForm subject, .list (caseForms cases)]
  | .tryCatch body catches cleanup =>
    .variant "try" [.list (stmtForms body), .list (catchForms catches), bodyForm? cleanup]
  | .breakLoop => .variant "break" []
  | .continueLoop => .variant "continue" []
  | .goto label => .variant "goto" [.text label]
  | .label name => .variant "label" [.text name]
  | .global names => .variant "global" [textsForm names]
  | .block body => .variant "block" [.list (stmtForms body)]
  | .nop => .variant "nop" []

def elseIfForms : List ElseIf → List Form
  | [] => []
  | ⟨span, condition, body⟩ :: rest =>
    .record [spanForm span, exprForm condition, .list (stmtForms body)] :: elseIfForms rest

def caseForms : List Case → List Form
  | [] => []
  | ⟨test, body⟩ :: rest => .record [exprForm? test, .list (stmtForms body)] :: caseForms rest

def catchForms : List Catch → List Form
  | [] => []
  | ⟨types, var, body⟩ :: rest =>
    .record [textsForm types, textForm? var, .list (stmtForms body)] :: catchForms rest

def classFieldForms : ClassDecl → List Form
  | ⟨span, name, members⟩ => [spanForm span, textForm? name, .list (memberForms members)]

def memberForms : List Member → List Form
  | [] => []
  | member :: rest => memberForm member :: memberForms rest

def memberForm : Member → Form
  | .property ⟨span, names, visibility, isStatic, defaults⟩ =>
    .variant "property" [spanForm span, textsForm names, visibilityForm visibility, .flag isStatic,
      .list (exprForms defaults)]
  | .method decl => .variant "method" (functionFieldForms decl)
  | .constant span names => .variant "constant" [spanForm span, textsForm names]
  | .traitUse span names => .variant "trait_use" [spanForm span, textsForm names]

def functionFieldForms : FunctionDecl → List Form
  | ⟨span, name, params, body, isAbstract, isStatic, visibility⟩ =>
    [spanForm span, .text name, .list (paramForms params), bodyForm? body, .flag isAbstract,
      .flag isStatic, visibilityForm? visibility]

def paramForms : List Param → List Form
  | [] => []
  | ⟨span, name, promoted, default⟩ :: rest =>
    .record [spanForm span, .text name, visibilityForm? promoted, exprForm? default]
      :: paramForms rest

def exprForm : Expr → Form
  | ⟨span, kind, type⟩ => .record [spanForm span, exprKindForm kind, tyForm type]

def exprForms : List Expr → List Form
  | [] => []
  | e :: rest => exprForm e :: exprForms rest

def exprForm? : Option Expr → Form
  | none => .nothing
  | some e => exprForm e

def exprKindForm : ExprKind → Form
  | .var name => .variant "variable" [.text name]
  | .literal value => .variant "literal" [.scalar value]
  | .constFetch name => .variant "const_fetch" [.text name]
  | .classConstFetch owner name => .variant "class_const_fetch" [classRefForm owner, .text name]
  | .array items => .variant "array" [.list (itemForms items)]
  | .new owner args => .variant "new" [classRefForm owner, .list (exprForms args)]
  | .call callee args => .variant "call" [calleeForm callee, .list (exprForms args)]
  | .methodCall receiver method args =>
    .variant "method_call" [exprForm receiver, .text method, .list (exprForms args)]
  | .staticCall owner method args =>
    .variant "static_call" [classRefForm owner, .text method, .list (exprForms args)]
  | .propertyFetch object property =>
    .variant "property_fetch" [exprForm object, .text property]
  | .staticPropertyFetch owner property =>
    .variant "static_property_fetch" [classRefForm owner, .text property]
  | .arrayDimFetch array index => .variant "array_dim_fetch" [exprForm array, exprForm? index]
  | .assign target value => .variant "assign" [exprForm target, exprForm value]
  | .binary op left right =>
    .variant "binary" [.variant op.word [], exprForm left, exprForm right]
  | .unary op operand => .variant "unary" [.variant op.word [], exprForm operand]
  | .ternary condition thenValue otherwise =>
    .variant "ternary" [exprForm condition, exprForm? thenValue, exprForm otherwise]
  | .closure params uses body =>
    .variant "closure" [.list (paramForms params), textsForm uses, .list (stmtForms body)]
  | .arrowFunction params body =>
    .variant "arrow_function" [.list (paramForms params), exprForm body]
  | .errorSuppress operand => .variant "error_suppress" [exprForm operand]
  | .throw value => .variant "throw" [exprForm value]
  | .other label children => .variant "other" [.text label, .list (exprForms children)]

def calleeForm : Callee → Form
  | .name name => .variant "name" [.text name]
  | .expr e => .variant "expr" [exprForm e]

def classRefForm : ClassRef → Form
  | .name name => .variant "name" [.text name]
  | .expr e => .variant "expr" [exprForm e]
  | .anonymous decl => .variant "anonymous" [.record (classFieldForms decl)]

def itemForms : List ArrayItem → List Form
  | [] => []
  | ⟨key, value⟩ :: rest => .record [exprForm? key, exprForm value] :: itemForms rest

end

/-- The form of a source file. -/
def fileForm (f : SourceFile) : Form :=
  .record [.text f.path, textForm? f.text, .list (stmtForms f.stmts)]

end Format
end SafetyLint
