import SafetyLint.Format.Table
import SafetyLint.Json.Value

/-!
# From forms to values

`write` gives a form back as a JSON value.  Every field is written, an absent option as `null`,
except the fields that are omitted when they have their default.
-/

namespace SafetyLint
namespace Format

/-- A scalar as a JSON value, in which no infinite double has a place. -/
def writeScalar : Tree.Scalar → Json
  | .bool b => .bool b
  | .int i => .int i
  | .float x => if x.isFinite then .float x else .null
  | .text s => .str s

/-- The field is left out when it holds this form. -/
def Field.leavesOut (f : Field) (form : Form) : Bool :=
  f.omitted && f.default.any fun d => d.isForm form

mutual

/-- Writes a form of the given shape. -/
def write (shape : Shape) : Form → Json
  | .nothing => .null
  | .flag b => .bool b
  | .int i => .int i
  | .text s => .str s
  | .scalar x => writeScalar x
  | .list items =>
    match shape with
    | .list of => .arr (writeItems of items)
    | _ => .null
  | .record forms =>
    match shape with
    | .entity e =>
      match e.layout with
      | .record fields => .obj (writeFields fields forms)
      | _ => .null
    | _ => .null
  | .variant name forms =>
    match shape with
    | .word _ => .str name
    | .entity e =>
      match e.layout with
      | .record _ => .null
      | .tagged tag variants =>
        .obj ((tag, .str name) :: writeFields ((variants.lookup name).getD []) forms)
      | .choice variants =>
        match forms with
        | [form] => .obj [(name, write ((variants.lookup name).getD .text) form)]
        | _ => .null
    | _ => .null

/-- Writes the items of a list. -/
def writeItems (shape : Shape) : List Form → List Json
  | [] => []
  | form :: rest => write shape form :: writeItems shape rest

/-- Writes the fields of a record as members. -/
def writeFields (fields : List Field) : List Form → List (String × Json)
  | [] => []
  | form :: rest =>
    match fields with
    | [] => []
    | f :: fs =>
      if f.leavesOut form then writeFields fs rest
      else (f.key, write f.shape form) :: writeFields fs rest

end

/-- Writes an entity. -/
def writeEntity (e : Entity) (form : Form) : Json := write (.entity e) form

end Format
end SafetyLint
