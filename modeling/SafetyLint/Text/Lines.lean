import SafetyLint.Text.Blank
import SafetyLint.Total

/-!
# Lines of a text

A text is cut into pieces at its newline characters, so a text that ends in a newline has an empty
last piece.  On a list of lines two counts are defined: the blank lines, and the lines that belong
to a comment.

Comments are found by a scan over whole lines that looks for the comment brackets anywhere in a
line, also inside a string of the program: the scan is not a lexer.
-/

namespace SafetyLint
namespace Text

/-! ## Pieces -/

/-- One character in front of a text that is already cut into pieces. -/
def consPiece (c : Char) (ps : List (List Char)) : List (List Char) :=
  if c = '\n' then [] :: ps
  else
    match ps with
    | [] => [[c]]
    | p :: rest => (c :: p) :: rest

/-- The pieces between the newline characters of a text. -/
def pieces (cs : List Char) : List (List Char) := cs.foldr consPiece [[]]

@[simp] theorem pieces_nil : pieces [] = [[]] := rfl

@[simp] theorem pieces_cons (c : Char) (cs : List Char) :
    pieces (c :: cs) = consPiece c (pieces cs) := rfl

/-- A text has at least one piece. -/
theorem pieces_ne_nil (cs : List Char) : pieces cs ≠ [] := by
  cases cs with
  | nil => simp
  | cons c cs =>
    rw [pieces_cons]
    unfold consPiece
    split
    · simp
    · split <;> simp

/-- Number of lines of a text: a last piece without characters is no line. -/
def lineCount (cs : List Char) : Nat :=
  let ps := pieces cs
  if ps.getLast? = some [] then ps.length - 1 else ps.length

/-- The lines `first` to `last` of a text, counted from one; lines past its end are left out. -/
def linesBetween (cs : List Char) (first last : Nat) : List (List Char) :=
  ((pieces cs).drop (first - 1)).take (last - (first - 1))

/-! ## Blank lines and comment lines -/

/-- The line has no visible character. -/
def isBlankLine (line : List Char) : Bool := (trim line).isEmpty

/-- `part` occurs somewhere in the text. -/
def hasPart (part : List Char) : List Char → Bool
  | [] => part.isEmpty
  | c :: cs => part.isPrefixOf (c :: cs) || hasPart part cs

/-- The line opens a block comment. -/
def opensComment (line : List Char) : Bool := hasPart ['/', '*'] (trim line)

/-- The line closes a block comment. -/
def closesComment (line : List Char) : Bool := hasPart ['*', '/'] (trim line)

/-- The line is a comment from its first visible character on. -/
def startsComment (line : List Char) : Bool :=
  ['/', '/'].isPrefixOf (trim line) || ['#'].isPrefixOf (trim line)

/-- One line of the comment scan: whether the line belongs to a comment, and whether a block comment
is open after it.  A line that opens a block and closes none leaves the block open; a line inside a
block ends it when it closes one; any other line is a comment if it starts as one or holds a whole
block. -/
def scanLine (inBlock : Bool) (line : List Char) : Bool × Bool :=
  if opensComment line && !closesComment line then (true, true)
  else if inBlock then (true, !closesComment line)
  else (startsComment line || (opensComment line && closesComment line), false)

/-- Which of the lines belong to a comment, when the block state before them is `inBlock`. -/
def commentMarks (inBlock : Bool) : List (List Char) → List Bool
  | [] => []
  | line :: rest => (scanLine inBlock line).1 :: commentMarks (scanLine inBlock line).2 rest

@[simp] theorem length_commentMarks (inBlock : Bool) (lines : List (List Char)) :
    (commentMarks inBlock lines).length = lines.length := by
  induction lines generalizing inBlock with
  | nil => rfl
  | cons line rest ih => simp [commentMarks, ih]

/-- Number of lines that belong to a comment. -/
def commentLines (lines : List (List Char)) : Nat := (commentMarks false lines).count true

/-- Number of lines without a visible character. -/
def blankLines (lines : List (List Char)) : Nat := lines.countP isBlankLine

/-! ## The place of a line in its text -/

/-- Number of bytes of a text. -/
def byteSize (cs : List Char) : Nat := total Char.utf8Size cs

/-- Byte offset and byte length of the trimmed content of piece `n` of `ps`, when the first piece
starts at byte `offset`. -/
def trimmedSpanFrom (offset : Nat) : List (List Char) → Nat → Option (Nat × Nat)
  | [], _ => none
  | p :: _, 0 => some (offset + (byteSize p - byteSize (trimStart p)), byteSize (trim p))
  | p :: ps, n + 1 => trimmedSpanFrom (offset + byteSize p + 1) ps n

/-- Byte offset and byte length of the trimmed content of line `line`, counted from one. -/
def lineSpan (cs : List Char) (line : Nat) : Option (Nat × Nat) :=
  match line with
  | 0 => none
  | n + 1 => trimmedSpanFrom 0 (pieces cs) n

end Text
end SafetyLint
