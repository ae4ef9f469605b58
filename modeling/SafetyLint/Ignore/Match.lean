import SafetyLint.Ignore.Pattern
import SafetyLint.Text.Glob

/-!
# Matching paths

A pattern has to cover the whole path.  The matcher works on all rests of the path at once.  A row
has one answer for each rest, from the whole path down to the empty rest, and says which rests are
covered by what follows in the pattern.  A token turns the row behind it into the row before it, so
the cost is the length of the pattern times the length of the path, whatever the tokens are.
-/

namespace SafetyLint
namespace Ignore

open Text (anyFrom)

/-- A byte of a class. -/
def inRanges (ranges : List (UInt8 × UInt8)) (b : UInt8) : Bool :=
  ranges.any fun r => r.1 ≤ b && b ≤ r.2

/-! ## Patterns that stand for nothing -/

mutual

/-- The token can stand for nothing only. -/
def Token.isVoid : Token → Bool
  | .choice branches => allVoid branches
  | _ => false

def isVoidList : List Token → Bool
  | [] => true
  | t :: rest => t.isVoid && isVoidList rest

def allVoid : List (List Token) → Bool
  | [] => true
  | b :: rest => isVoidList b && allVoid rest

end

/-! ## Rows -/

/-- The row in front of one byte of some kind. -/
def stepRow (kind : UInt8 → Bool) (path : List UInt8) (row : List Bool) : List Bool :=
  List.zipWith (fun b covered => kind b && covered) path row.tail ++ [false]

/-- The row in front of a run of bytes without slashes. -/
def runRow : List UInt8 → List Bool → List Bool
  | b :: path, covered :: row =>
    let rest := runRow path row
    (covered || (b != slash && rest.headD false)) :: rest
  | _, row => row

/-- The row in front of directories, or of none: the rest goes on here or behind a later slash. -/
def frontRow (path : List UInt8) (row : List Bool) : List Bool :=
  List.zipWith (fun here later => here || later) row (anyFrom (stepRow (· = slash) path row))

mutual

/-- The row in front of a token. -/
def Token.rowBefore (path : List UInt8) (row : List Bool) : Token → List Bool
  | .char c => (bytesOf c.toString).foldr (fun b row => stepRow (· = b) path row) row
  | .any => stepRow (· != slash) path row
  | .run => runRow path row
  | .front => frontRow path row
  | .tail => stepRow (· = slash) path (anyFrom row)
  | .middle => stepRow (· = slash) path (frontRow path row)
  | .oneOf negated ranges =>
    let ranges := ranges.flatMap byteRanges
    stepRow (fun b => inRanges ranges b != negated) path row
  | .choice branches => if allVoid branches then row else choiceRow path row branches

/-- The row in front of several tokens. -/
def tokensRow (path : List UInt8) (row : List Bool) : List Token → List Bool
  | [] => row
  | t :: ts => t.rowBefore path (tokensRow path row ts)

/-- The row in front of one of several branches; those that can stand for nothing only do not
count. -/
def choiceRow (path : List UInt8) (row : List Bool) : List (List Token) → List Bool
  | [] => row.map fun _ => false
  | b :: others =>
    let rest := choiceRow path row others
    if isVoidList b then rest
    else List.zipWith (fun one other => one || other) (tokensRow path row b) rest

end

/-- The pattern covers the whole path; `**` alone covers every path. -/
def matchesPath (pattern : List Token) (path : String) : Bool :=
  match pattern with
  | [.front] => true
  | _ =>
    let bytes := bytesOf path
    (tokensRow bytes ((bytes.map fun _ => false) ++ [true]) pattern).headD false

end Ignore
end SafetyLint
