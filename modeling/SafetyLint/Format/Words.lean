import SafetyLint.Format.Table

/-!
# Words of trees

The written words of visibilities and operators, in both directions.
-/

namespace SafetyLint
namespace Tree

namespace Visibility

def word : Visibility → String
  | pub => "public"
  | prot => "protected"
  | priv => "private"

def ofWord : String → Visibility
  | "protected" => prot
  | "private" => priv
  | _ => pub

@[simp] theorem ofWord_word (v : Visibility) : ofWord v.word = v := by cases v <;> rfl

end Visibility

namespace BinaryOp

def word : BinaryOp → String
  | smaller => "smaller"
  | smallerOrEqual => "smaller_or_equal"
  | greater => "greater"
  | greaterOrEqual => "greater_or_equal"
  | equal => "equal"
  | notEqual => "not_equal"
  | identical => "identical"
  | notIdentical => "not_identical"
  | and => "and"
  | or => "or"
  | coalesce => "coalesce"
  | concat => "concat"
  | plus => "plus"
  | minus => "minus"
  | mul => "mul"
  | div => "div"
  | mod => "mod"
  | bitwise => "bitwise"

/-- The operators in the order of their words. -/
def all : List BinaryOp :=
  [smaller, smallerOrEqual, greater, greaterOrEqual, equal, notEqual, identical, notIdentical, and,
   or, coalesce, concat, plus, minus, mul, div, mod, bitwise]

def ofWord (w : String) : BinaryOp := (all.find? fun op => op.word == w).getD bitwise

@[simp] theorem ofWord_word (op : BinaryOp) : ofWord op.word = op := by cases op <;> rfl

end BinaryOp

namespace UnaryOp

def word : UnaryOp → String
  | not => "not"
  | neg => "neg"
  | preInc => "pre_inc"
  | postInc => "post_inc"
  | preDec => "pre_dec"
  | postDec => "post_dec"
  | bitNot => "bit_not"

/-- The operators in the order of their words. -/
def all : List UnaryOp := [not, neg, preInc, postInc, preDec, postDec, bitNot]

def ofWord (w : String) : UnaryOp := (all.find? fun op => op.word == w).getD bitNot

@[simp] theorem ofWord_word (op : UnaryOp) : ofWord op.word = op := by cases op <;> rfl

end UnaryOp

end Tree
end SafetyLint
