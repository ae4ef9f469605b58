import SafetyLint.Format.Shape

/-!
# The written form of trees and reports

The layouts of all entities, with the keys and words that stand in a text.
-/

namespace SafetyLint
namespace Format

open SafetyLint.Format.Field Shape

/-- A list of entities. -/
def many (e : Entity) : Shape := .list (.entity e)

/-- A list of texts. -/
def texts : Shape := .list .text

/-- A field that holds the lines of a construct. -/
def spanField : Field := required "span" (.entity .span)

/-- A list of statements; an absent list is empty. -/
def bodyField (key : String) : Field := defaulted key (many .stmt) .emptyList

/-- A list of expressions; an absent list is empty. -/
def exprsField (key : String) : Field := defaulted key (many .expr) .emptyList

/-- An expression that has to be there. -/
def exprField (key : String) : Field := required key (.entity .expr)

/-- A flag that is off unless it is written. -/
def flagField (key : String) : Field := defaulted key .flag .no

/-- The words for who may see a member. -/
def visibilityWords : List String := ["public", "protected", "private"]

/-- The words for binary operators. -/
def binaryWords : List String :=
  ["smaller", "smaller_or_equal", "greater", "greater_or_equal", "equal", "not_equal", "identical",
   "not_identical", "and", "or", "coalesce", "concat", "plus", "minus", "mul", "div", "mod",
   "bitwise"]

/-- The words for unary operators. -/
def unaryWords : List String :=
  ["not", "neg", "pre_inc", "post_inc", "pre_dec", "post_dec", "bit_not"]

/-- The words for severities, mildest first. -/
def severityWords : List String := ["info", "warning", "error"]

def classFields : List Field :=
  [spanField, optional "name" .text, defaulted "members" (many .member) .emptyList]

def functionFields : List Field :=
  [spanField, required "name" .text, defaulted "params" (many .param) .emptyList,
   optional "body" (many .stmt), flagField "is_abstract", flagField "is_static",
   optional "visibility" (.word visibilityWords)]

def propertyFields : List Field :=
  [spanField, required "names" texts,
   defaulted "visibility" (.word visibilityWords) (.variant "public"), flagField "is_static",
   (exprsField "defaults").unwritten]

def stmtVariants : List (String × List Field) :=
  [("namespace", [optional "name" .text, bodyField "body"]),
   ("declare", [required "directives" (many .directive)]),
   ("use", [required "names" texts]),
   ("class", classFields),
   ("function", functionFields),
   ("expression", [exprField "expr"]),
   ("echo", [required "exprs" (many .expr)]),
   ("return", [optional "expr" (.entity .expr)]),
   ("if", [exprField "condition", bodyField "then",
     defaulted "else_ifs" (many .elseIf) .emptyList, optional "otherwise" (many .stmt)]),
   ("for", [exprsField "init", exprsField "condition", exprsField "step", bodyField "body"]),
   ("while", [exprField "condition", bodyField "body"]),
   ("do_while", [exprField "condition", bodyField "body"]),
   ("foreach", [exprField "iterable", optional "key" (.entity .expr), exprField "value",
     bodyField "body"]),
   ("switch", [exprField "subject", defaulted "cases" (many .switchCase) .emptyList]),
   ("try", [bodyField "body", defaulted "catches" (many .handler) .emptyList,
     optional "finally" (many .stmt)]),
   ("break", []),
   ("continue", []),
   ("goto", [required "label" .text]),
   ("label", [required "name" .text]),
   ("global", [required "names" texts]),
   ("block", [bodyField "body"]),
   ("nop", [])]

def memberVariants : List (String × List Field) :=
  [("property", propertyFields),
   ("method", functionFields),
   ("constant", [spanField, required "names" texts]),
   ("trait_use", [spanField, required "names" texts])]

def exprVariants : List (String × List Field) :=
  [("variable", [required "name" .text]),
   ("literal", [required "value" .scalar]),
   ("const_fetch", [required "name" .text]),
   ("class_const_fetch", [required "class" (.entity .classRef), required "name" .text]),
   ("array", [defaulted "items" (many .arrayItem) .emptyList]),
   ("new", [required "class" (.entity .classRef), exprsField "args"]),
   ("call", [required "callee" (.entity .callee), exprsField "args"]),
   ("method_call", [exprField "receiver", required "method" .text, exprsField "args"]),
   ("static_call",
     [required "class" (.entity .classRef), required "method" .text, exprsField "args"]),
   ("property_fetch", [exprField "object", required "property" .text]),
   ("static_property_fetch", [required "class" (.entity .classRef), required "property" .text]),
   ("array_dim_fetch", [exprField "array", optional "index" (.entity .expr)]),
   ("assign", [exprField "target", exprField "value"]),
   ("binary", [required "op" (.word binaryWords), exprField "left", exprField "right"]),
   ("unary", [required "op" (.word unaryWords), exprField "operand"]),
   ("ternary", [exprField "condition", optional "then" (.entity .expr), exprField "otherwise"]),
   ("closure", [defaulted "params" (many .param) .emptyList, defaulted "uses" texts .emptyList,
     bodyField "body"]),
   ("arrow_function", [defaulted "params" (many .param) .emptyList, exprField "body"]),
   ("error_suppress", [exprField "operand"]),
   ("throw", [exprField "value"]),
   ("other", [required "label" .text, exprsField "children"])]

def tyVariants : List (String × List Field) :=
  [("unknown", []), ("mixed", []), ("void", []), ("null", []), ("bool", []), ("int", []),
   ("float", []), ("string", []),
   ("constant_int", [required "value" .int]),
   ("constant_scalar", [required "value" .scalar]),
   ("array", [optional "size" .nat]),
   ("object", [required "class" .text, flagField "countable"]),
   ("iterable", [flagField "generator"])]

namespace Entity

/-- The layout of an entity. -/
def layout : Entity → Layout
  | sourceFile =>
    .record [required "path" .text, (optional "source" .text).unwritten, bodyField "stmts"]
  | span => .record [required "start_line" .nat, required "end_line" .nat]
  | stmt =>
    .record [spanField, required "kind" (.entity .stmtKind),
      (defaulted "comments" texts .emptyList).unwritten]
  | stmtKind => .tagged "stmt" stmtVariants
  | directive => .record [required "name" .text, required "value" .scalar]
  | elseIf => .record [spanField, exprField "condition", bodyField "body"]
  | switchCase => .record [optional "test" (.entity .expr), bodyField "body"]
  | handler => .record [required "types" texts, optional "var" .text, bodyField "body"]
  | classDecl => .record classFields
  | member => .tagged "member" memberVariants
  | property => .record propertyFields
  | function => .record functionFields
  | param =>
    .record [spanField, required "name" .text, optional "promoted" (.word visibilityWords),
      optional "default" (.entity .expr)]
  | expr =>
    .record [spanField, required "kind" (.entity .exprKind),
      (defaulted "resolved_type" (.entity .ty) (.variant "unknown")).unwritten]
  | exprKind => .tagged "expr" exprVariants
  | callee => .choice [("name", .text), ("expr", .entity .expr)]
  | classRef =>
    .choice [("name", .text), ("expr", .entity .expr), ("anonymous", .entity .classDecl)]
  | arrayItem => .record [optional "key" (.entity .expr), exprField "value"]
  | ty => .tagged "kind" tyVariants
  | location => .record [required "file" .text, required "line" .nat]
  | suggestion => .record [required "message" .text]
  | finding =>
    .record [required "code" .text, required "rule" .text,
      required "severity" (.word severityWords), required "location" (.entity .location),
      required "message" .text,
      (optional "suggestion" (.entity .suggestion)).unwritten]
  | report => .record [required "violations" (many .finding), required "files_checked" .nat]

end Entity

end Format
end SafetyLint
