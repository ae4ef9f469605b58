import SafetyLint.Disk
import SafetyLint.Format.Dump

/-!
# Loading dumps

A dump may leave out the text of its source file.  Then the text is taken from the file itself,
which is looked for relative to the dump, if it can be read.
-/

namespace SafetyLint
namespace Format

open SafetyLint.Tree

/-- Why a dump cannot be loaded. -/
inductive LoadError where
  | disk (e : DiskError)
  | dump (e : ReadError)
  deriving DecidableEq, Repr

/-- Where the source file of a dump is. -/
def textPath (dump : String) (f : SourceFile) : String :=
  if Path.isAbsolute f.path then f.path else Path.join (Path.parentOrHere dump) f.path

/-- The file with its text, if that was missing and can be read. -/
def addText (disk : Disk) (dump : String) (f : SourceFile) : SourceFile :=
  match f.text with
  | some _ => f
  | none => { f with text := (disk.readText (textPath dump f)).toOption }

/-- Loads a dump. -/
def loadDump (disk : Disk) (dump : String) : Except LoadError SourceFile := do
  let text ← (disk.readText dump).mapError .disk
  let f ← (decodeDump text).mapError .dump
  return addText disk dump f

end Format
end SafetyLint
