import SafetyLint.Decimal.Shortest

/-!
# Syntax trees of source files

A file reaches the linter as a tree that some other tool has already parsed and typed.  This module
holds the shape of that tree: statements and expressions, the declarations that stand inside them,
the scalar literals and the static types that annotate expressions.

Statements contain expressions (a condition), expressions contain statements (the body of a
closure) and both contain declarations (an anonymous class), so the recursive part is one mutual
family.  Everything that does not take part in the recursion is defined before it.
-/

namespace SafetyLint
namespace Tree

/-! ## Line ranges -/

/-- A range of lines, counted from one and inclusive at both ends.  Nothing forces the last line to
follow the first: a range that was read from a file is kept as it was written. -/
structure Span where
  firstLine : Nat
  lastLine : Nat
  deriving DecidableEq, Repr, Inhabited

namespace Span

/-- The range from `first` to `last`, widened to a single line when `last` comes before `first`. -/
def between (first last : Nat) : Span := ⟨first, max last first⟩

/-- The range that holds one line. -/
def line (n : Nat) : Span := ⟨n, n⟩

/-- Number of lines in the range; an inverted range counts as one line. -/
def lineCount (s : Span) : Nat := (s.lastLine - s.firstLine) + 1

end Span

/-! ## Scalars and static types -/

/-- The value of a scalar literal. -/
inductive Scalar where
  | bool (b : Bool)
  | int (i : Int)
  | float (x : Float)
  | text (s : String)
  deriving Inhabited

namespace Scalar

/-- Two scalars are equal when they are of one kind and hold equal values, so the integer `1` and
the float `1.0` differ. -/
def same : Scalar → Scalar → Bool
  | bool a, bool b => a == b
  | int a, int b => a == b
  | float a, float b => a == b
  | text a, text b => a == b
  | _, _ => false

/-- The scalar as it is shown in a message; a text stands between quotes as it is. -/
def display : Scalar → String
  | bool b => if b then "true" else "false"
  | int i => toString i
  | float x => Decimal.floatText x
  | text s => "\"" ++ s ++ "\""

/-- The integer held by an integer literal. -/
def toInt? : Scalar → Option Int
  | int i => some i
  | _ => none

end Scalar

/-- What is known about the type of an expression. -/
inductive Ty where
  | unknown
  | mixed
  | void
  | null
  | bool
  | int
  | float
  | string
  /-- An integer whose value is known. -/
  | constantInt (value : Int)
  /-- A scalar whose value is known. -/
  | constantScalar (value : Scalar)
  /-- An array, with its number of keys when that is known. -/
  | array (size : Option Nat)
  /-- An instance of a class; `countable` says that its size is finite. -/
  | object (className : String) (countable : Bool)
  /-- A sequence without a bound on its length. -/
  | iterable (generator : Bool)
  deriving Inhabited

namespace Ty

/-- No type information at all. -/
def isUnknown : Ty → Bool
  | unknown => true
  | _ => false

def isVoid : Ty → Bool
  | void => true
  | _ => false

/-- The type says nothing useful about a returned value. -/
def isUninformative : Ty → Bool
  | unknown | mixed | null => true
  | _ => false

/-- The integer that every value of the type equals. -/
def constantInt? : Ty → Option Int
  | constantInt value => some value
  | constantScalar value => value.toInt?
  | _ => none

/-- The class of an object type. -/
def className? : Ty → Option String
  | object className _ => some className
  | _ => none

end Ty

/-! ## Words of the language -/

/-- Who may see a member of a class. -/
inductive Visibility where
  | pub
  | prot
  | priv
  deriving DecidableEq, Repr, Inhabited

/-- Binary operators, as far as the rules tell them apart. -/
inductive BinaryOp where
  | smaller
  | smallerOrEqual
  | greater
  | greaterOrEqual
  | equal
  | notEqual
  | identical
  | notIdentical
  | and
  | or
  | coalesce
  | concat
  | plus
  | minus
  | mul
  | div
  | mod
  | bitwise
  deriving DecidableEq, Repr, Inhabited

/-- Unary operators. -/
inductive UnaryOp where
  | not
  | neg
  | preInc
  | postInc
  | preDec
  | postDec
  | bitNot
  deriving DecidableEq, Repr, Inhabited

/-- One `name=value` pair of a declare statement. -/
structure Directive where
  name : String
  value : Scalar
  deriving Inhabited

/-! ## The recursive family -/

mutual

/-- A statement with its lines and the comments that stand directly before it. -/
structure Stmt where
  span : Span
  kind : StmtKind
  comments : List String

/-- What a statement does. -/
inductive StmtKind where
  | namespaceBlock (name : Option String) (body : List Stmt)
  | declareBlock (directives : List Directive)
  | useNames (names : List String)
  | classDecl (decl : ClassDecl)
  | functionDecl (decl : FunctionDecl)
  | expression (expr : Expr)
  | echo (exprs : List Expr)
  | returnValue (expr : Option Expr)
  | ifElse (condition : Expr) (thenBody : List Stmt) (elseIfs : List ElseIf)
      (otherwise : Option (List Stmt))
  | forLoop (init : List Expr) (condition : List Expr) (step : List Expr) (body : List Stmt)
  | whileLoop (condition : Expr) (body : List Stmt)
  | doWhile (condition : Expr) (body : List Stmt)
  | foreach (iterable : Expr) (key : Option Expr) (value : Expr) (body : List Stmt)
  | switch (subject : Expr) (cases : List Case)
  | tryCatch (body : List Stmt) (catches : List Catch) (cleanup : Option (List Stmt))
  | breakLoop
  | continueLoop
  | goto (label : String)
  | label (name : String)
  | global (names : List String)
  | block (body : List Stmt)
  | nop

/-- An `elseif` branch. -/
structure ElseIf where
  span : Span
  condition : Expr
  body : List Stmt

/-- A branch of a switch; the default branch has no test. -/
structure Case where
  test : Option Expr
  body : List Stmt

/-- A handler of a try statement. -/
structure Catch where
  types : List String
  var : Option String
  body : List Stmt

/-- A class; an anonymous class has no name. -/
structure ClassDecl where
  span : Span
  name : Option String
  members : List Member

/-- A member of a class. -/
inductive Member where
  | property (decl : PropertyDecl)
  | method (decl : FunctionDecl)
  | constant (span : Span) (names : List String)
  | traitUse (span : Span) (names : List String)

/-- One declaration of properties, with their default values in order. -/
structure PropertyDecl where
  span : Span
  names : List String
  visibility : Visibility
  isStatic : Bool
  defaults : List Expr

/-- A function or a method; one that only declares a signature has no body. -/
structure FunctionDecl where
  span : Span
  name : String
  params : List Param
  body : Option (List Stmt)
  isAbstract : Bool
  isStatic : Bool
  visibility : Option Visibility

/-- A parameter; a promoted parameter also declares a property of that visibility. -/
structure Param where
  span : Span
  name : String
  promoted : Option Visibility
  default : Option Expr

/-- An expression with its lines and its static type. -/
structure Expr where
  span : Span
  kind : ExprKind
  type : Ty

/-- What an expression computes. -/
inductive ExprKind where
  | var (name : String)
  | literal (value : Scalar)
  | constFetch (name : String)
  | classConstFetch (owner : ClassRef) (name : String)
  | array (items : List ArrayItem)
  | new (owner : ClassRef) (args : List Expr)
  | call (callee : Callee) (args : List Expr)
  | methodCall (receiver : Expr) (method : String) (args : List Expr)
  | staticCall (owner : ClassRef) (method : String) (args : List Expr)
  | propertyFetch (object : Expr) (property : String)
  | staticPropertyFetch (owner : ClassRef) (property : String)
  | arrayDimFetch (array : Expr) (index : Option Expr)
  | assign (target : Expr) (value : Expr)
  | binary (op : BinaryOp) (left : Expr) (right : Expr)
  | unary (op : UnaryOp) (operand : Expr)
  | ternary (condition : Expr) (thenValue : Option Expr) (otherwise : Expr)
  | closure (params : List Param) (uses : List String) (body : List Stmt)
  | arrowFunction (params : List Param) (body : Expr)
  | errorSuppress (operand : Expr)
  | throw (value : Expr)
  | other (label : String) (children : List Expr)

/-- What a call calls: a function by name, or the value of an expression. -/
inductive Callee where
  | name (name : String)
  | expr (expr : Expr)

/-- A class as an expression refers to it. -/
inductive ClassRef where
  | name (name : String)
  | expr (expr : Expr)
  | anonymous (decl : ClassDecl)

/-- An element of an array literal. -/
structure ArrayItem where
  key : Option Expr
  value : Expr

end

/-- Whoever answers what the static type of an expression is.  The annotations of a tree are such
answers (`Expr.type`); a host may give others. -/
abbrev TypeOracle := Expr → Ty

end Tree
end SafetyLint
