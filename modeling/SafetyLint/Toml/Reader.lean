import SafetyLint.Toml.Scalar

/-!
# Reading TOML

A text is cut into statements, one a line, and the statements are put into a table one after the
other.  Values are read by a machine with a stack of open arrays and inline tables.
-/

namespace SafetyLint
namespace Toml

/-- Arrays and inline tables nest less deep than this, and keys have fewer parts. -/
def nestingLimit : Nat := 80

/-- A scan whose rest is shorter than the text it started from. -/
def advance? {α : Type} (cs : List Char) (scan : Scan α) :
    Option (α × { rest : List Char // rest.length < cs.length }) :=
  match scan with
  | none => none
  | some (a, rest) => if h : rest.length < cs.length then some (a, ⟨rest, h⟩) else none

/-! ## Keys -/

def isKeyChar (c : Char) : Bool := c.isAlphanum || c = '_' || c = '-'

/-- One part of a key. -/
def keyPart? (cs : List Char) : Scan String :=
  match cs with
  | '"' :: rest => basicString [] rest
  | '\'' :: rest => literalString [] rest
  | _ =>
    let name := cs.takeWhile isKeyChar
    if name.isEmpty then none else some (String.ofList name, cs.dropWhile isKeyChar)

/-- The parts of a key, with points between them and blanks around them. -/
def keyParts? (cs : List Char) : Scan (List String) :=
  match advance? (cs.dropWhile isSpace) (keyPart? (cs.dropWhile isSpace)) with
  | none => none
  | some (part, ⟨rest, _⟩) =>
    match _h : rest.dropWhile isSpace with
    | '.' :: more =>
      match keyParts? more with
      | none => none
      | some (parts, after) => some (part :: parts, after)
    | after => some ([part], after)
termination_by cs.length
decreasing_by
  have h1 := Json.length_dropWhile_le (p := isSpace) cs
  have h2 := Json.length_dropWhile_le (p := isSpace) rest
  simp only [_h, List.length_cons] at h2
  omega

/-- A key. -/
def key? (cs : List Char) : Scan (List String) :=
  match keyParts? cs with
  | none => none
  | some (parts, rest) => if parts.length < nestingLimit then some (parts, rest) else none

/-! ## Values -/

/-- The text behind blanks, line breaks and comments. -/
def skipFiller (inComment : Bool) : List Char → List Char
  | [] => []
  | '\n' :: rest => skipFiller false rest
  | '\r' :: '\n' :: rest => skipFiller false rest
  | c :: rest =>
    if inComment then if isPlain c then skipFiller true rest else c :: rest
    else if isSpace c then skipFiller false rest
    else if c = '#' then skipFiller true rest
    else c :: rest

theorem length_skipFiller (b : Bool) (cs : List Char) :
    (skipFiller b cs).length ≤ cs.length := by
  fun_induction skipFiller b cs <;> simp_all only [List.length_cons, Nat.le_refl] <;> omega

/-- An array or inline table that is still open; of an array what it holds so far, last first, of a
table also the key whose value is awaited. -/
inductive Frame where
  | arr (items : List Toml)
  | table (entries : Entries) (key : List String)

/-- What may come next. -/
inductive Want where
  /-- A value; in an array also its end. -/
  | value
  /-- A key of an inline table; in one that was just opened also its end. -/
  | key (orClose : Bool)
  /-- A separator or an end, after a value. -/
  | next

/-- The filler that may stand inside the innermost open frame. -/
def skipInside : List Frame → List Char → List Char
  | .arr _ :: _, cs => skipFiller false cs
  | _, cs => cs.dropWhile isSpace

theorem length_skipInside (frames : List Frame) (cs : List Char) :
    (skipInside frames cs).length ≤ cs.length := by
  unfold skipInside
  split
  · exact length_skipFiller false cs
  · exact Json.length_dropWhile_le cs

/-- A value goes into the innermost frame; without a frame it is the result. -/
def place (v : Toml) : List Frame → Option (List Frame)
  | [] => none
  | .arr items :: outer => some (.arr (v :: items) :: outer)
  | .table entries key :: outer =>
    (Toml.insert key v entries).map fun entries => .table entries [] :: outer

/-- A step of the machine: the value is complete, or it goes on with these frames. -/
inductive Step where
  | finished (v : Toml)
  | more (frames : List Frame) (want : Want)

/-- What follows when a value is complete. -/
def completed (v : Toml) : List Frame → Option Step
  | [] => some (.finished v)
  | frames => (place v frames).map (.more · .next)

/-- A string or a bare word. -/
def scalar? (cs : List Char) : Scan Toml :=
  match cs.head? with
  | some c =>
    if c = '"' || c = '\'' then (string? cs).map fun r => (.str r.1, r.2) else bareValue? cs
  | none => none

/-- Opens a frame, unless too many are open. -/
def pushFrame (frame : Frame) (frames : List Frame) (want : Want) : Option Step :=
  if frames.length + 1 < nestingLimit then some (.more (frame :: frames) want) else none

/-- One step of the machine, on a text without filler in front. -/
def step? (frames : List Frame) (want : Want) (cs : List Char) : Scan Step :=
  match want, frames, cs with
  | .value, .arr items :: outer, ']' :: rest =>
    (completed (.arr items.reverse) outer).map fun s => (s, rest)
  | .value, _, '[' :: rest => (pushFrame (.arr []) frames .value).map fun s => (s, rest)
  | .value, _, '\x7b' :: rest =>
    (pushFrame (.table [] []) frames (.key true)).map fun s => (s, rest)
  | .value, _, _ =>
    (scalar? cs).bind fun (v, rest) => (completed v frames).map fun s => (s, rest)
  | .key true, .table entries _ :: outer, '\x7d' :: rest =>
    (completed (.table (finishAll entries)) outer).map fun s => (s, rest)
  | .key _, .table entries _ :: outer, _ =>
    (key? cs).bind fun (path, rest) =>
      (expect? '=' rest).map fun rest => (.more (.table entries path :: outer) .value, rest)
  | .next, .arr _ :: _, ',' :: rest => some (.more frames .value, rest)
  | .next, .arr items :: outer, ']' :: rest =>
    (completed (.arr items.reverse) outer).map fun s => (s, rest)
  | .next, .table _ _ :: _, ',' :: rest => some (.more frames (.key false), rest)
  | .next, .table entries _ :: outer, '\x7d' :: rest =>
    (completed (.table (finishAll entries)) outer).map fun s => (s, rest)
  | _, _, _ => none

/-- Runs the machine. -/
def runValue (frames : List Frame) (want : Want) (cs : List Char) : Scan Toml :=
  match advance? (skipInside frames cs) (step? frames want (skipInside frames cs)) with
  | none => none
  | some (.finished v, ⟨rest, _⟩) => some (v, rest)
  | some (.more inner want, ⟨rest, _⟩) => runValue inner want rest
termination_by cs.length
decreasing_by
  have := length_skipInside frames cs
  omega

/-- A value. -/
def value? (cs : List Char) : Scan Toml := runValue [] .value cs

/-! ## Statements -/

/-- One line of a text. -/
inductive Statement where
  | blank
  /-- The header of a table. -/
  | header (path : List String)
  /-- The header of the next element of an array of tables. -/
  | element (path : List String)
  | assign (path : List String) (v : Toml)

/-- What follows the rest of a line, if nothing but a comment stands there. -/
def lineEnd? (cs : List Char) : Option (List Char) :=
  let cs := cs.dropWhile isSpace
  let cs := if cs.head? = some '#' then cs.dropWhile isPlain else cs
  if cs.isEmpty then some [] else lineBreak? cs

/-- A statement, and the text behind its line. -/
def statement? (cs : List Char) : Option (Statement × List Char) := do
  let cs := cs.dropWhile isSpace
  match cs with
  | '[' :: '[' :: rest =>
    let (path, rest) ← key? rest
    let rest ← expect? ']' rest
    let rest ← expect? ']' rest
    return (.element path, ← lineEnd? rest)
  | '[' :: rest =>
    let (path, rest) ← key? rest
    let rest ← expect? ']' rest
    return (.header path, ← lineEnd? rest)
  | _ =>
    match lineEnd? cs with
    | some rest => return (.blank, rest)
    | none =>
      let (path, rest) ← key? cs
      let rest ← expect? '=' rest
      let (v, rest) ← value? rest
      return (.assign path v, ← lineEnd? rest)

/-- The statements of a text. -/
def statements? (cs : List Char) : Option (List Statement) :=
  if cs.isEmpty then some []
  else
    match advance? cs (statement? cs) with
    | none => none
    | some (s, ⟨rest, _⟩) => (statements? rest).map (s :: ·)
termination_by cs.length

/-- A table being filled, and the path of the header that the next keys belong to. -/
structure Draft where
  root : Entries
  current : List String

/-- Carries out a statement. -/
def Draft.execute (d : Draft) : Statement → Option Draft
  | .blank => some d
  | .header path => (openTable path d.root).map (⟨·, path⟩)
  | .element path => (openElement path d.root).map (⟨·, path⟩)
  | .assign path v => (descend (Toml.insert path v) d.current d.root).map (⟨·, d.current⟩)

/-- Reads a text; a byte order mark in front is skipped. -/
def parse? (text : String) : Option (List (String × Toml)) := do
  let cs :=
    match text.toList with
    | '\ufeff' :: rest => rest
    | cs => cs
  let draft ← (← statements? cs).foldlM Draft.execute ⟨[], []⟩
  return finishAll draft.root

end Toml
end SafetyLint
