import SafetyLint.Format.Table
import SafetyLint.Json.Reader

/-!
# From values to forms

`read` checks a value against a shape and gives its form.  The parts of a value are checked in the
order of the text, and the first problem is the answer: a fault of the text, a part that does not
fit, a field that comes twice.  Fields that are missing are noticed at the end of their object.

Some parts are read as the text goes by, others are taken in as a whole before anything in them is
looked at, and the mode of reading says which.  A tagged object is taken in as a whole, since its
tag may come last.  The difference shows when a text has two problems, and in what an object may
nest: as long as the text goes by, the members that nobody asked for are passed over without a limit
on their depth.

A record may also be written as the array of its fields in order.
-/

namespace SafetyLint
namespace Format

/-- Why a text does not have the form asked for. -/
inductive ReadError where
  | malformed
  | truncated
  | missingField (key : String)
  | duplicateField (key : String)
  | unknownVariant (name : String)
  | wrongType
  | outOfRange
  | noScalar
  | wrongLength (length : Nat)
  deriving DecidableEq, Repr

namespace ReadError

/-- What a fault of the text means for its reader. -/
def ofFault : Json.Fault → ReadError
  | .malformed => malformed
  | .truncated => truncated
  | .unclosed => truncated

/-- What is wrong with a well-formed text. -/
def message? : ReadError → Option String
  | malformed => none
  | truncated => none
  | missingField key => some s!"missing field `{key}`"
  | duplicateField key => some s!"duplicate field `{key}`"
  | unknownVariant name => some s!"unknown variant `{name}`"
  | wrongType => some "invalid type"
  | outOfRange => some "invalid value"
  | noScalar => some "data did not match any variant of untagged enum Scalar"
  | wrongLength length => some s!"invalid length {length}"

end ReadError

/-! ## Modes -/

/-- How many arrays and objects may stand inside each other. -/
def depthLimit : Nat := 127

/-- How a value comes to its reader. -/
inductive Mode where
  /-- The text goes by while it is read; so many arrays and objects are open around the value. -/
  | live (depth : Nat)
  /-- The value is part of a document that was read before. -/
  | parsed
  /-- The value was taken in as a whole because a tag had to be found first. -/
  | held

/-- The mode inside an array or object. -/
def Mode.enter : Mode → Except ReadError Mode
  | live depth => if depth < depthLimit then .ok (live (depth + 1)) else .error .malformed
  | m => .ok m

mutual

/-- The first fault of a value that is taken in as a whole, `depth` arrays and objects deep. -/
def faultIn (depth : Nat) : Json → Option ReadError
  | .fault reading _ => some (.ofFault reading)
  | .hidden _ => some .malformed
  | .arr items => if depth < depthLimit then faultInItems (depth + 1) items else some .malformed
  | .obj members =>
    if depth < depthLimit then faultInMembers (depth + 1) members else some .malformed
  | _ => none

def faultInItems (depth : Nat) : List Json → Option ReadError
  | [] => none
  | v :: rest => (faultIn depth v).or (faultInItems depth rest)

def faultInMembers (depth : Nat) : List (String × Json) → Option ReadError
  | [] => none
  | (_, v) :: rest => (faultIn depth v).or (faultInMembers depth rest)

end

mutual

/-- The first fault of a value that is passed over. -/
def faultPast : Json → Option ReadError
  | .fault _ passing => passing.map .ofFault
  | .hidden v => faultPast v
  | .arr items => faultPastItems items
  | .obj members => faultPastMembers members
  | _ => none

def faultPastItems : List Json → Option ReadError
  | [] => none
  | v :: rest => (faultPast v).or (faultPastItems rest)

def faultPastMembers : List (String × Json) → Option ReadError
  | [] => none
  | (_, v) :: rest => (faultPast v).or (faultPastMembers rest)

end

/-- Nothing is wrong, or something. -/
def complain : Option ReadError → Except ReadError Unit
  | none => .ok ()
  | some e => .error e

/-- Takes in a value as a whole. -/
def Mode.takeIn (m : Mode) (v : Json) : Except ReadError Unit :=
  match m with
  | live depth => complain (faultIn depth v)
  | _ => .ok ()

/-- Passes over a member that nobody asked for; its key has to be read all the same. -/
def Mode.passOver (m : Mode) (v : Json) : Except ReadError Unit :=
  match m, v with
  | live _, .hidden _ => .error .malformed
  | live _, v => complain (faultPast v)
  | _, _ => .ok ()

/-! ## Values without parts -/

/-- The least and the greatest number of 64 bits with sign. -/
def minInt : Int := -9223372036854775808

def maxInt : Int := 9223372036854775807

/-- The nearest double of a whole number. -/
def nearestFloat (i : Int) : Float :=
  if i < 0 then -(UInt64.ofNat i.natAbs).toFloat else (UInt64.ofNat i.natAbs).toFloat

/-- Reads a scalar.  A whole number that 64 bits with sign do not hold is a double. -/
def readScalar : Json → Except ReadError Form
  | .bool b => .ok (.scalar (.bool b))
  | .int i => .ok (.scalar (if minInt ≤ i ∧ i ≤ maxInt then .int i else .float (nearestFloat i)))
  | .float x => .ok (.scalar (.float x))
  | .str s => .ok (.scalar (.text s))
  | _ => .error .noScalar

/-- Reads a word by its name. -/
def readWord (words : List String) (name : String) : Except ReadError Form :=
  if words.contains name then .ok (.variant name []) else .error (.unknownVariant name)

/-- Reads a value that is neither an array nor an object. -/
def readLeaf (shape : Shape) (v : Json) : Except ReadError Form :=
  match shape, v with
  | .flag, .bool b => .ok (.flag b)
  | .nat, .int i => if 0 ≤ i then .ok (.int i) else .error .outOfRange
  | .int, .int i => if minInt ≤ i ∧ i ≤ maxInt then .ok (.int i) else .error .outOfRange
  | .text, .str s => .ok (.text s)
  | .scalar, v => readScalar v
  | .word words, .str s => readWord words s
  | .entity e, .str s =>
    match e.layout with
    | .choice variants =>
      -- A variant needs its content.
      if (variants.lookup s).isSome then .error .wrongType else .error (.unknownVariant s)
    | _ => .error .wrongType
  | _, _ => .error .wrongType

/-! ## Tags and slots -/

/-- A variant with its fields. -/
abbrev Variant := String × List Field

/-- The variant that a tag names.  In a value that was taken in as a whole its number will do. -/
def readTag (m : Mode) (variants : List Variant) : Json → Except ReadError Variant
  | .str s =>
    match variants.lookup s with
    | some fields => .ok (s, fields)
    | none => .error (.unknownVariant s)
  | .int i =>
    match m with
    | .live _ => .error .wrongType
    | .parsed => .error .wrongType
    | .held =>
      if i < 0 then .error .wrongType
      else
        match variants[i.toNat]? with
        | some v => .ok v
        | none => .error .outOfRange
  | .fault reading _ => .error (.ofFault reading)
  | _ => .error .wrongType

/-- Takes in a tagged object and finds its variant. -/
def findTag (m : Mode) (tag : String) (variants : List Variant) :
    Option Variant → List (String × Json) → Except ReadError Variant
  | none, [] => .error (.missingField tag)
  | some v, [] => .ok v
  | found, (key, v) :: rest =>
    if key = tag then
      match found with
      | some _ => .error (.duplicateField tag)
      | none => do
        let variant ← readTag m variants v
        findTag m tag variants (some variant) rest
    else do
      m.takeIn v
      findTag m tag variants found rest

/-- The fields read so far, in the order of the layout. -/
abbrev Slots := List (Option Form)

/-- Fills in defaults for the fields that are absent. -/
def complete : List Field → Slots → Except ReadError (List Form)
  | [], _ => .ok []
  | f :: fs, slots => do
    let x ←
      match slots.head?.join, f.default with
      | some x, _ => .ok x
      | none, some d => .ok d.form
      | none, none => .error (.missingField f.key)
    let rest ← complete fs slots.tail
    return x :: rest

/-- Defaults for the fields from number `i` on, which an array does not reach. -/
def completePositions (i : Nat) : List Field → Except ReadError (List Form)
  | [] => .ok []
  | f :: fs =>
    match f.default with
    | some d => do
      let rest ← completePositions (i + 1) fs
      return d.form :: rest
    | none => .error (.wrongLength i)

/-- The array goes on behind the last field.  In a text that goes by nothing may follow but the end
of the array, so only a text that ends right there is cut short. -/
def surplus (m : Mode) (i : Nat) (v : Json) (rest : List Json) : ReadError :=
  match m, v with
  | .live _, .fault .unclosed _ => .truncated
  | .live _, _ => .malformed
  | _, _ => .wrongLength (i + 1 + rest.length)

/-- The content of a variant that has none. -/
def isHollow (m : Mode) : Json → Bool
  | .null => true
  | .obj [] =>
    match m with
    | .held => true
    | _ => false
  | _ => false

/-! ## Values with parts -/

mutual

/-- Reads a value of the given shape; where the value is optional, `null` stands for nothing. -/
def read (m : Mode) (optional : Bool) (shape : Shape) : Json → Except ReadError Form
  | .null => if optional then .ok .nothing else readLeaf shape .null
  | .fault reading _ => .error (.ofFault reading)
  | .arr items =>
    match shape with
    | .list shape => do
      let m ← m.enter
      let forms ← readItems m shape items
      return .list forms
    | .entity e =>
      match e.layout with
      | .record fields => do
        let m ← m.enter
        let forms ← readPositions m 0 fields items
        return .record forms
      | .tagged tag variants => do
        let m ← m.enter
        match items with
        | [] => .error (.missingField tag)
        | v :: rest => do
          let (name, fields) ← readTag m variants v
          rest.forM m.takeIn
          let forms ← readPositions .held 0 fields rest
          return .variant name forms
      | .choice _ => .error .wrongType
    | .scalar => do
      m.takeIn (.arr items)
      .error .noScalar
    | _ => .error .wrongType
  | .obj members =>
    match shape with
    | .entity e =>
      match e.layout with
      | .record fields => do
        let m ← m.enter
        let slots ← readMembers m none fields (fields.map fun _ => none) members
        let forms ← complete fields slots
        return .record forms
      | .tagged tag variants => do
        let m ← m.enter
        let (name, fields) ← findTag m tag variants none members
        let slots ← readMembers .held (some tag) fields (fields.map fun _ => none) members
        let forms ← complete fields slots
        return .variant name forms
      | .choice variants =>
        match members with
        | [(name, v)] =>
          match variants.lookup name with
          | some shape => do
            let form ← read .held false shape v
            return .variant name [form]
          | none => .error (.unknownVariant name)
        | _ => .error .outOfRange
    | .word words =>
      match members with
      | [(name, v)] => do
        let form ← readWord words name
        if isHollow m v then return form else .error .wrongType
      | _ => .error .outOfRange
    | .scalar => do
      m.takeIn (.obj members)
      .error .noScalar
    | _ => .error .wrongType
  | v => readLeaf shape v

/-- Reads the items of a list. -/
def readItems (m : Mode) (shape : Shape) : List Json → Except ReadError (List Form)
  | [] => .ok []
  | v :: rest => do
    let form ← read m false shape v
    let forms ← readItems m shape rest
    return form :: forms

/-- Reads the members of an object into the slots of the fields.  The tag of a tagged object is no
field. -/
def readMembers (m : Mode) (tag : Option String) (fields : List Field) (slots : Slots) :
    List (String × Json) → Except ReadError Slots
  | [] => .ok slots
  | (key, v) :: rest =>
    if tag = some key then readMembers m tag fields slots rest
    else
      match fields.findIdx? (·.key = key) with
      | none => do
        m.passOver v
        readMembers m tag fields slots rest
      | some i =>
        match slots[i]?.join, fields[i]? with
        | some _, _ => .error (.duplicateField key)
        | none, none => readMembers m tag fields slots rest
        | none, some f => do
          let form ← read m f.isOptional f.shape v
          readMembers m tag fields (slots.set i (some form)) rest

/-- Reads fields that stand in an array, from number `i` on. -/
def readPositions (m : Mode) (i : Nat) (fields : List Field) :
    List Json → Except ReadError (List Form)
  | [] => completePositions i fields
  | v :: rest =>
    match fields with
    | [] => .error (surplus m i v rest)
    | f :: fs => do
      let form ← read m f.isOptional f.shape v
      let forms ← readPositions m (i + 1) fs rest
      return form :: forms

end

/-- Reads an entity from a value of a document that was read before. -/
def readEntity (e : Entity) (v : Json) : Except ReadError Form := read .parsed false (.entity e) v

/-- Reads an entity from a value as its text would be read. -/
def readLive (e : Entity) (v : Json) : Except ReadError Form := read (.live 0) false (.entity e) v

/-- Reads an entity from a text, behind which nothing may follow. -/
def readText (e : Entity) (text : String) : Except ReadError Form := do
  let document := Json.parse text
  let form ← readLive e document.value
  if document.hasMore then .error .malformed else return form

end Format
end SafetyLint
