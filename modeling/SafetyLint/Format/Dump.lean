import SafetyLint.Format.Read
import SafetyLint.Format.Write
import SafetyLint.Format.ToForm
import SafetyLint.Format.OfForm

/-!
# Dumps

A dump is the text of a source file's tree, as the tool that parsed the file wrote it.
-/

namespace SafetyLint
namespace Format

open SafetyLint.Tree

/-- The source file in a JSON value, read as its text would be. -/
def decodeFile (v : Json) : Except ReadError SourceFile := (readLive .sourceFile v).map fileOf

/-- The source file in a dump. -/
def decodeDump (text : String) : Except ReadError SourceFile :=
  (readText .sourceFile text).map fileOf

/-- A source file as a JSON value. -/
def encodeFile (f : SourceFile) : Json := writeEntity .sourceFile (fileForm f)

/-- A type as a JSON value. -/
def encodeTy (t : Ty) : Json := writeEntity .ty (tyForm t)

/-- The type in a JSON value. -/
def decodeTy (v : Json) : Except ReadError Ty := (readEntity .ty v).map tyOf

/-- The scalar in a JSON value. -/
def decodeScalar (v : Json) : Except ReadError Scalar :=
  (read .parsed false .scalar v).map scalarOf

/-- The whole number in a JSON value. -/
def decodeInt (v : Json) : Except ReadError Int := (read .parsed false .int v).map intOf

/-- Who may see a member, in a JSON value. -/
def decodeVisibility (v : Json) : Except ReadError Visibility :=
  (read .parsed false (.word visibilityWords) v).map visibilityOf

/-- The binary operator in a JSON value. -/
def decodeBinaryOp (v : Json) : Except ReadError BinaryOp :=
  (read .parsed false (.word binaryWords) v).map fun f => .ofWord (wordOf f)

end Format
end SafetyLint
