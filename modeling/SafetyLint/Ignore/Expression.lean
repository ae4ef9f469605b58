import SafetyLint.Ignore.Match

/-!
# Expressions of patterns

The patterns of one file are made into a set together.  In a set a pattern is a regular expression,
and an expression may not nest too deeply: one that does spoils the whole set.  Patterns whose
answer can be read off the text of a path need no expression, and a pattern with a fixed ending has
one of its own outside the common list, so the two are told apart here.
-/

namespace SafetyLint
namespace Ignore

/-! ## Expressions -/

/-- A regular expression over bytes. -/
inductive Expression where
  | byte (b : UInt8)
  | anyByte
  /-- One byte of a class, given by ranges of characters. -/
  | oneOf (negated : Bool) (ranges : List (Char × Char))
  | many (e : Expression)
  | maybe (e : Expression)
  | group (e : Expression)
  | seq (parts : List Expression)
  | alt (parts : List Expression)

namespace Expression

/-- Some expressions one after the other; a single one stands for itself. -/
def seqOf : List Expression → Expression
  | [e] => e
  | parts => .seq parts

/-- One of some expressions. -/
def altOf : List Expression → Expression
  | [e] => e
  | parts => .alt parts

def slashByte : Expression := .byte slash

/-- A byte that is no slash. -/
def notSlash : Expression := .oneOf true [('/', '/')]

end Expression

open Expression (slashByte notSlash seqOf altOf)

mutual

/-- The expressions that a token stands for, one after the other. -/
def Token.expressions : Token → List Expression
  | .char c => (bytesOf c.toString).map .byte
  | .any => [notSlash]
  | .run => [.many notSlash]
  | .front => [.group (.alt [.maybe slashByte, .seq [.many .anyByte, slashByte]])]
  | .tail => [slashByte, .many .anyByte]
  | .middle => [.group (.alt [slashByte, .seq [slashByte, .many .anyByte, slashByte]])]
  | .oneOf negated ranges => [.oneOf negated ranges]
  | .choice branches =>
    match branchExpressions branches with
    | [] => []
    | parts => [.group (altOf parts)]

def expressionsOf : List Token → List Expression
  | [] => []
  | t :: ts => t.expressions ++ expressionsOf ts

/-- The expressions of the branches that stand for something. -/
def branchExpressions : List (List Token) → List Expression
  | [] => []
  | b :: rest =>
    match expressionsOf b with
    | [] => branchExpressions rest
    | parts => seqOf parts :: branchExpressions rest

end

/-! ## Depth -/

mutual

/-- How deep an expression nests.  A class of several items nests deeper than one of a single
item. -/
def Expression.depth : Expression → Nat
  | .byte _ => 0
  | .anyByte => 0
  | .oneOf _ ranges => if (ranges.flatMap byteRanges).length = 1 then 1 else 2
  | .many e => e.depth + 1
  | .maybe e => e.depth + 1
  | .group e => e.depth + 1
  | .seq parts => depthOf parts + 1
  | .alt parts => depthOf parts + 1

/-- How deep the deepest of some expressions nests. -/
def depthOf : List Expression → Nat
  | [] => 0
  | e :: rest => max e.depth (depthOf rest)

end

/-- How deep an expression may nest. -/
def expressionLimit : Nat := 250

/-- The expression of a pattern nests too deeply.  The marks of its start and its end make it a
sequence. -/
def isTooDeep (pattern : List Token) : Bool :=
  expressionLimit < depthOf (expressionsOf pattern) + 1

/-! ## Text -/

/-- The characters with a meaning of their own in expressions. -/
def isExpressionMark (c : Char) : Bool := "\\.+*?()|[]\x7b\x7d^$#&-~".toList.contains c

/-- A digit of a number to the base sixteen. -/
def hexDigit (n : Nat) : Char := Char.ofNat (if n < 10 then 48 + n else 87 + n)

/-- A byte as an expression writes it. -/
def byteText (b : UInt8) : List Char :=
  if b < 128 then
    let c := Char.ofNat b.toNat
    if isExpressionMark c then ['\\', c] else [c]
  else ['\\', 'x', hexDigit (b.toNat / 16), hexDigit (b.toNat % 16)]

def charText (c : Char) : List Char := (bytesOf c.toString).flatMap byteText

def rangeText (r : Char × Char) : List Char :=
  if r.1 = r.2 then charText r.1 else charText r.1 ++ '-' :: charText r.2

mutual

/-- The text of an expression. -/
def Expression.text : Expression → List Char
  | .byte b => byteText b
  | .anyByte => ['.']
  | .oneOf negated ranges =>
    '[' :: (if negated then ['^'] else []) ++ ranges.flatMap rangeText ++ [']']
  | .many e => e.text ++ ['*']
  | .maybe e => e.text ++ ['?']
  | .group e => "(?:".toList ++ e.text ++ [')']
  | .seq parts => seqText parts
  | .alt parts => altText parts

def seqText : List Expression → List Char
  | [] => []
  | e :: rest => e.text ++ seqText rest

def altText : List Expression → List Char
  | [] => []
  | [e] => e.text
  | e :: rest => e.text ++ '|' :: altText rest

end

/-- The text of the expression of a pattern. -/
def expressionText (pattern : List Token) : String :=
  String.ofList ("(?-u)^".toList ++ seqText (expressionsOf pattern) ++ ['$'])

/-! ## Sets of patterns -/

/-- The token is a character of some kind. -/
def Token.isChar (kind : Char → Bool) : Token → Bool
  | .char c => kind c
  | _ => false

/-- The tokens are some characters. -/
def isPlainText (tokens : List Token) : Bool :=
  !tokens.isEmpty && tokens.all (Token.isChar fun _ => true)

/-- The pattern is about the text of a path, or of the end or the start of a path. -/
def needsNoExpression (pattern : List Token) : Bool :=
  match pattern with
  | .front :: .run :: .char '.' :: rest => rest.all (Token.isChar fun c => c ≠ '.' && c ≠ '/')
  | .front :: rest => isPlainText rest
  | _ =>
    isPlainText pattern ||
      match pattern.reverse with
      | .tail :: rest => rest.all (Token.isChar fun _ => true)
      | _ => false

/-- Every path that the pattern covers has one ending, from its last dot on. -/
def hasFixedEnding (pattern : List Token) : Bool :=
  match pattern.reverse.dropWhile (Token.isChar fun c => c ≠ '.' && c ≠ '/') with
  | .char '.' :: _ => true
  | _ => false

/-- Why patterns make no set. -/
inductive SetFault where
  /-- A pattern in the common list nests too deeply. -/
  | tooDeep (index : Nat)
  /-- A pattern with a fixed ending nests too deeply. -/
  | tooDeepAlone (pattern : List Token)

def SetFault.message : SetFault → String
  | tooDeep index => "error parsing pattern " ++ toString index
  | tooDeepAlone pattern =>
    "error parsing glob '" ++ expressionText pattern ++ "': error parsing pattern 0"

/-- What is wrong with a set of patterns.  Patterns with fixed endings are looked at first. -/
def setFault? (patterns : List (List Token)) : Option SetFault :=
  let (alone, common) := (patterns.filter fun p => !needsNoExpression p).partition hasFixedEnding
  ((alone.find? isTooDeep).map .tooDeepAlone) <|> (common.findIdx? isTooDeep).map .tooDeep

end Ignore
end SafetyLint
