import SafetyLint.Config.Basic
import SafetyLint.Rules.FunctionLength
import SafetyLint.Tree.Build
import Mathlib.Data.List.Zip

/-!
# Lines that count

The length of a function leaves out comment lines, or blank lines, or both.  The two are counted on
their own and taken away one after the other, so a blank line inside of a block comment is taken
away twice when both are left out.

`codeLines` is the number of lines that are left, when every line is looked at once.  The main
statement, `measuredLength_eq_codeLines_sub`, says by how much the measured length falls short of
it.
-/

namespace SafetyLint
namespace Rules
namespace FunctionLength

open SafetyLint.Tree Config Text

/-! ## Marked lines -/

/-- A line together with what the scan for comment lines says of it. -/
abbrev MarkedLine := List Char × Bool

/-- The lines, each with its mark from the scan over all of them. -/
def markedLines (lines : List (List Char)) : List MarkedLine := lines.zip (commentMarks false lines)

theorem length_markedLines (lines : List (List Char)) :
    (markedLines lines).length = lines.length := by
  rw [markedLines, List.length_zip, length_commentMarks, Nat.min_self]

theorem countP_comment_markedLines (lines : List (List Char)) :
    (markedLines lines).countP (fun l => l.2) = commentLines lines := by
  have hmarks : (markedLines lines).map Prod.snd = commentMarks false lines :=
    List.map_snd_zip (Nat.le_of_eq (length_commentMarks false lines))
  rw [commentLines, ← hmarks, List.count_eq_countP, List.countP_map]
  exact List.countP_congr fun l _ => by simp

theorem countP_blank_markedLines (lines : List (List Char)) :
    (markedLines lines).countP (fun l => isBlankLine l.1) = blankLines lines := by
  have hlines : (markedLines lines).map Prod.fst = lines :=
    List.map_fst_zip (Nat.le_of_eq (length_commentMarks false lines).symm)
  conv_rhs => rw [blankLines, ← hlines, List.countP_map]
  rfl

/-! ## Lines that are left out -/

variable (settings : Settings)

/-- The line is left out because it belongs to a comment. -/
def isLeftOutComment (l : MarkedLine) : Bool := !settings.countComments && l.2

/-- The line is left out because it is blank. -/
def isLeftOutBlank (l : MarkedLine) : Bool := !settings.countBlankLines && isBlankLine l.1

/-- Number of lines that are not left out. -/
def codeLines (lines : List (List Char)) : Nat :=
  (markedLines lines).countP fun l => !isLeftOutComment settings l && !isLeftOutBlank settings l

/-- Number of lines that there are two reasons to leave out. -/
def doublyLeftOut (lines : List (List Char)) : Nat :=
  (markedLines lines).countP fun l => isLeftOutComment settings l && isLeftOutBlank settings l

/-- What is counted twice is missing among the rest. -/
theorem countP_add_countP_add_countP_not {α : Type} (p q : α → Bool) (l : List α) :
    l.countP p + l.countP q + l.countP (fun a => !p a && !q a) =
      l.length + l.countP (fun a => p a && q a) := by
  induction l with
  | nil => rfl
  | cons a l ih =>
    simp only [List.countP_cons, List.length_cons]
    cases p a <;> cases q a <;> simp <;> omega

theorem countedLines_eq (lines : List (List Char)) :
    countedLines settings lines = codeLines settings lines - doublyLeftOut settings lines := by
  have hcomments : (markedLines lines).countP (isLeftOutComment settings) =
      if settings.countComments then 0 else commentLines lines := by
    rw [← countP_comment_markedLines]
    show (markedLines lines).countP (fun l => !settings.countComments && l.2) = _
    cases settings.countComments <;> simp
  have hblanks : (markedLines lines).countP (isLeftOutBlank settings) =
      if settings.countBlankLines then 0 else blankLines lines := by
    rw [← countP_blank_markedLines]
    show (markedLines lines).countP (fun l => !settings.countBlankLines && isBlankLine l.1) = _
    cases settings.countBlankLines <;> simp
  have hsum := countP_add_countP_add_countP_not (isLeftOutComment settings)
    (isLeftOutBlank settings) (markedLines lines)
  rw [length_markedLines] at hsum
  rw [countedLines, ← hcomments, ← hblanks, codeLines, doublyLeftOut]
  omega

/-! ## The measured length -/

variable {settings}

/-- The length of a declaration in a file whose text is known, when comment lines or blank lines
are left out.

* It is the number of lines of the declaration that are not left out, less the number of those that
  are left out as comments and as blank lines.
* So it is the number of lines that are not left out exactly if no line is left out for both
  reasons, or all lines are left out. -/
theorem measuredLength_eq_codeLines_sub {c : Context} {o : OpenFile} {text : String}
    (hfile : c.file = some o) (htext : o.text = some text)
    (hflags : ¬ (settings.countComments = true ∧ settings.countBlankLines = true))
    (decl : FunctionDecl) :
    let lines := linesBetween text.toList decl.span.firstLine decl.span.lastLine
    measuredLength settings c decl = codeLines settings lines - doublyLeftOut settings lines ∧
      (measuredLength settings c decl = codeLines settings lines ↔
        doublyLeftOut settings lines = 0 ∨ codeLines settings lines = 0) := by
  intro lines
  have hlines : (c.file.bind fun f => f.lines? decl.span.firstLine decl.span.lastLine) =
      some lines := by
    rw [hfile, Option.bind_some, OpenFile.lines?, htext, Option.map_some]
  have hlength : measuredLength settings c decl =
      codeLines settings lines - doublyLeftOut settings lines := by
    rw [measuredLength, if_neg (by simpa using hflags), hlines]
    exact countedLines_eq settings lines
  refine ⟨hlength, ?_⟩
  rw [hlength]
  omega

/-- Neither comment lines nor blank lines count. -/
def codeOnly : Settings :=
  { Settings.default with countComments := false, countBlankLines := false }

/-- A file with the text, which is walked. -/
def readingText (text : String) : Context :=
  Context.empty.enterFile (.ofFile 0 ⟨"f.php", some text, []⟩ none)

/-- A function of eight lines, of which four are comments and one is blank. -/
def commentedFunction : String :=
  "function f() \x7b\n    // one\n\n    /*\n     * two\n     */\n    return 1;\n\x7d\n"

theorem measuredLength_commentedFunction :
    ¬ (codeOnly.countComments = true ∧ codeOnly.countBlankLines = true) ∧
      measuredLength codeOnly (readingText commentedFunction) (.named "f" 1 8) = 3 ∧
      codeLines codeOnly (linesBetween commentedFunction.toList 1 8) = 3 := by
  have hflags : ¬ (codeOnly.countComments = true ∧ codeOnly.countBlankLines = true) := by decide
  have hfile : (readingText commentedFunction).file =
      some ⟨0, "f.php", some commentedFunction, "f.php"⟩ := rfl
  obtain ⟨-, hcode⟩ := measuredLength_eq_codeLines_sub hfile rfl hflags (.named "f" 1 8)
  have hleft : codeLines codeOnly (linesBetween commentedFunction.toList 1 8) = 3 := by decide
  exact ⟨hflags, (hcode.mpr (Or.inl (by decide))).trans hleft, hleft⟩

/-- A function of seven lines: three of a comment, of which the middle one is blank, and four
others. -/
def blankInComment : String := "function f()\n\x7b\n/*\n\n*/\ng();\n\x7d"

/-- Of the four lines that are not left out, one is missing from the length. -/
theorem measuredLength_ne_codeLines_blankInComment :
    measuredLength codeOnly (readingText blankInComment) (.named "f" 1 7) ≠
      codeLines codeOnly (linesBetween blankInComment.toList 1 7) := by
  decide

end FunctionLength
end Rules
end SafetyLint
