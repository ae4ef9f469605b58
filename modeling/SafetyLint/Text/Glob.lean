/-!
# Patterns

A library of patterns compiles texts and matches names (`PatternLibrary`).  `Glob.library` is one
for this language: `?` is any character, `*` any run of characters, the empty run included, `[...]`
one of the characters in the brackets and `[!...]` one that is not among them; every other character
stands for itself.  A pattern has to match the whole name.  Upper and lower case differ, and neither
slashes nor dots are special.  Two stars in a row, which are for directories, are no pattern here.

The matcher works on all rests of the name at once: for a pattern it makes a row of answers, one for
each rest, and the row of `p :: ps` comes from the row of `ps`.  So a pattern with many stars costs
no more than one with few.
-/

namespace SafetyLint
namespace Text

/-- What a library of patterns offers. -/
structure PatternLibrary where
  /-- A compiled pattern. -/
  Pattern : Type
  /-- Why a text is no pattern. -/
  Fault : Type
  compile : List Char → Except Fault Pattern
  /-- The pattern matches the whole name. -/
  accepts : Pattern → List Char → Bool
  /-- The pattern that only the text itself matches. -/
  escape : List Char → List Char
  message : Fault → String

/-! ## Rows -/

/-- For each rest of a row, whether some answer in it is yes. -/
def anyFrom : List Bool → List Bool
  | [] => []
  | b :: bs =>
    let rest := anyFrom bs
    (b || rest.headD false) :: rest

theorem tail_anyFrom (row : List Bool) : (anyFrom row).tail = anyFrom row.tail := by
  cases row <;> rfl

theorem anyFrom_ne_nil {row : List Bool} (h : row ≠ []) : anyFrom row ≠ [] := by
  cases row with
  | nil => exact absurd rfl h
  | cons b bs => simp [anyFrom]

namespace Glob

/-! ## Pieces -/

/-- A piece of a pattern. -/
inductive Piece where
  | char (c : Char)
  /-- Any character. -/
  | any
  /-- A run of characters. -/
  | run
  /-- One of the characters of a class, or one that is not among them.  The class is kept as it is
  written between the brackets, where it has at least one character. -/
  | oneOf (negated : Bool) (first : Char) (others : List Char)
  deriving DecidableEq, Repr

/-- The characters that stand for themselves in brackets only. -/
def metacharacters : List Char := ['?', '*', '[', ']']

/-- The class has the character, `a-b` being all characters from `a` to `b`. -/
def inClass : List Char → Char → Bool
  | a :: dash :: b :: rest, c =>
    if dash = '-' then (a ≤ c && c ≤ b) || inClass rest c
    else a == c || inClass (dash :: b :: rest) c
  | a :: rest, c => a == c || inClass rest c
  | [], _ => false

/-- The piece can stand for the single character. -/
def Piece.takes : Piece → Char → Bool
  | char p, c => c == p
  | any, _ => true
  | run, _ => false
  | oneOf negated first others, c => inClass (first :: others) c != negated

/-! ## Reading patterns -/

/-- Why a text is no pattern. -/
inductive Fault where
  | openClass
  | adjacentStars
  deriving DecidableEq, Repr

def Fault.message : Fault → String
  | openClass => "invalid range pattern"
  | adjacentStars => "two wildcards in a row"

/-- Where a reader of patterns is. -/
inductive Mode where
  | outside (afterStar : Bool)
  /-- Behind an opening bracket. -/
  | opened
  /-- Where a class begins. -/
  | begins (negated : Bool)
  /-- Inside a class, with what was read of it, last character first. -/
  | inside (negated : Bool) (first : Char) (seen : List Char)

/-- Reads the pieces of a pattern.  A closing bracket that comes first in a class is part of it. -/
def read : Mode → List Char → Except Fault (List Piece)
  | .outside _, [] => .ok []
  | _, [] => .error .openClass
  | .outside afterStar, c :: rest =>
    if c = '*' then
      if afterStar then .error .adjacentStars else (Piece.run :: ·) <$> read (.outside true) rest
    else if c = '?' then (Piece.any :: ·) <$> read (.outside false) rest
    else if c = '[' then read .opened rest
    else (Piece.char c :: ·) <$> read (.outside false) rest
  | .opened, c :: rest =>
    if c = '!' then read (.begins true) rest else read (.inside false c []) rest
  | .begins negated, c :: rest => read (.inside negated c []) rest
  | .inside negated first seen, c :: rest =>
    if c = ']' then (Piece.oneOf negated first seen.reverse :: ·) <$> read (.outside false) rest
    else read (.inside negated first (c :: seen)) rest

/-! ## Matching names -/

/-- The row in front of a piece. -/
def Piece.rowBefore (name : List Char) (row : List Bool) : Piece → List Bool
  | run => anyFrom row
  | p => List.zipWith (fun c covered => p.takes c && covered) name row.tail ++ [false]

/-- Which rests of a name the pieces match, from the whole name down to the empty rest. -/
def coverRow (name : List Char) : List Piece → List Bool
  | [] => (name.map fun _ => false) ++ [true]
  | p :: ps => p.rowBefore name (coverRow name ps)

/-- The pieces match the name. -/
def accepts (ps : List Piece) (name : List Char) : Bool := (coverRow name ps).headD false

theorem Piece.rowBefore_of_ne_run {p : Piece} (hp : p ≠ .run) (name : List Char)
    (row : List Bool) :
    p.rowBefore name row =
      List.zipWith (fun c covered => p.takes c && covered) name row.tail ++ [false] := by
  cases p with
  | run => exact absurd rfl hp
  | _ => rfl

theorem coverRow_ne_nil (name : List Char) (ps : List Piece) : coverRow name ps ≠ [] := by
  induction ps with
  | nil => simp [coverRow]
  | cons p ps ih =>
    by_cases hp : p = .run
    · subst hp
      exact anyFrom_ne_nil ih
    · rw [coverRow, Piece.rowBefore_of_ne_run hp]
      simp

/-- The row of a name goes on with the row of the name without its first character. -/
theorem tail_coverRow_cons (c : Char) (name : List Char) (ps : List Piece) :
    (coverRow (c :: name) ps).tail = coverRow name ps := by
  induction ps with
  | nil => simp [coverRow]
  | cons p ps ih =>
    by_cases hp : p = .run
    · subst hp
      exact (tail_anyFrom _).trans (congrArg anyFrom ih)
    · rw [coverRow, coverRow, Piece.rowBefore_of_ne_run hp, Piece.rowBefore_of_ne_run hp, ih]
      cases hrow : coverRow name ps with
      | nil => exact absurd hrow (coverRow_ne_nil name ps)
      | cons b bs => simp

@[simp] theorem accepts_nil (name : List Char) : accepts [] name = name.isEmpty := by
  cases name <;> rfl

/-- At the end of the name a run can only be empty. -/
@[simp] theorem accepts_run_nil (ps : List Piece) : accepts (.run :: ps) [] = accepts ps [] := by
  have hrow : ∀ qs, ∃ b, coverRow [] qs = [b] := by
    intro qs
    induction qs with
    | nil => exact ⟨true, rfl⟩
    | cons q qs ih =>
      obtain ⟨b, hb⟩ := ih
      cases q <;> simp [coverRow, Piece.rowBefore, hb, anyFrom]
  obtain ⟨b, hb⟩ := hrow ps
  simp [accepts, coverRow, Piece.rowBefore, hb, anyFrom]

/-- A run ends, or it takes the next character. -/
@[simp] theorem accepts_run_cons (ps : List Piece) (c : Char) (rest : List Char) :
    accepts (.run :: ps) (c :: rest) = (accepts ps (c :: rest) || accepts (.run :: ps) rest) := by
  have htail := tail_coverRow_cons c rest ps
  cases hrow : coverRow (c :: rest) ps with
  | nil => exact absurd hrow (coverRow_ne_nil _ _)
  | cons b bs =>
    rw [hrow, List.tail_cons] at htail
    simp [accepts, coverRow, Piece.rowBefore, hrow, anyFrom, ← htail]

/-- Nothing is left for another piece. -/
@[simp] theorem accepts_cons_nil {p : Piece} (hp : p ≠ .run) (ps : List Piece) :
    accepts (p :: ps) [] = false := by
  simp [accepts, coverRow, Piece.rowBefore_of_ne_run hp]

/-- Another piece takes one character. -/
@[simp] theorem accepts_cons_cons {p : Piece} (hp : p ≠ .run) (ps : List Piece) (c : Char)
    (rest : List Char) : accepts (p :: ps) (c :: rest) = (p.takes c && accepts ps rest) := by
  have htail := tail_coverRow_cons c rest ps
  cases hrest : coverRow rest ps with
  | nil => exact absurd hrest (coverRow_ne_nil _ _)
  | cons b bs => simp [accepts, coverRow, Piece.rowBefore_of_ne_run hp, htail, hrest]

/-! ## The library -/

/-- Puts a character that would not stand for itself in brackets. -/
def escapeChar (c : Char) : List Char := if metacharacters.contains c then ['[', c, ']'] else [c]

def library : PatternLibrary where
  Pattern := List Piece
  Fault := Fault
  compile := read (.outside false)
  accepts := accepts
  escape text := text.flatMap escapeChar
  message := Fault.message

end Glob

end Text
end SafetyLint
