import SafetyLint.Tree.Basic
import SafetyLint.Text.Lines

/-!
# Source files

A source file is its path, its top-level statements and, when the tool that wrote the tree kept it,
the text.
-/

namespace SafetyLint
namespace Tree

/-- One parsed source file. -/
structure SourceFile where
  path : String
  text : Option String
  stmts : List Stmt

namespace SourceFile

/-- The last line of the file: of its text if that is known, else of its last statement. -/
def lastLine (f : SourceFile) : Nat :=
  match f.text with
  | some text => Text.lineCount text.toList
  | none =>
    match f.stmts.getLast? with
    | some s => s.span.lastLine
    | none => 1

/-- The lines of the file; there is always a first one. -/
def span (f : SourceFile) : Span := Span.between 1 f.lastLine

end SourceFile

end Tree
end SafetyLint
