import SafetyLint.Json.Token

/-!
# Reading JSON

A machine with a stack of open arrays and objects takes one token after the other.  When the text
fails, every array and object that is still open is closed around the fault, so the value of a text
holds all that stands before the fault.
-/

namespace SafetyLint
namespace Json

/-- The key of a member. -/
inductive Key where
  | text (s : String)
  /-- A string that stands for no text. -/
  | unreadable

/-- A key with its value. -/
def Key.member : Key → Json → String × Json
  | text s, v => (s, v)
  | unreadable, v => ("", .hidden v)

/-- An array or object that is still open, with what it holds so far, last first.  The key of an
object is the one whose value is awaited, and empty if none is. -/
inductive Frame where
  | arr (items : List Json)
  | obj (members : List (String × Json)) (key : Key)

/-- What may come next. -/
inductive Want where
  /-- A value; in an array that was just opened also its end. -/
  | value (orClose : Bool)
  /-- The key of a member; in an object that was just opened also its end. -/
  | key (orClose : Bool)
  | colon
  /-- A separator or an end, after a value. -/
  | next

/-- What it means that the text ends. -/
def Want.atEnd : Want → Fault
  | next => .unclosed
  | _ => .truncated

/-- A text read as one value, and whether something follows the value. -/
structure Document where
  value : Json
  hasMore : Bool

/-- A frame closed around a last value. -/
def Frame.close (v : Json) : Frame → Json
  | arr items => .arr (v :: items).reverse
  | obj members key => .obj (key.member v :: members).reverse

/-- All open frames closed around a fault. -/
def abandon (frames : List Frame) (v : Json) : Document := ⟨frames.foldl Frame.close v, false⟩

/-- Reading stops at something that may not stand there. -/
def refuse (frames : List Frame) : Document := abandon frames (broken .malformed)

/-- The fault of a key that is none.  If it could be read up to its end, readers and those who pass
over it meet the same fault. -/
def brokenKey (reading passing : Fault) : Json :=
  if reading = passing then broken passing else .hidden (broken passing)

/-- Takes the tokens one by one. -/
def run (frames : List Frame) (want : Want) : List Token → Document
  | [] => abandon frames (broken want.atEnd)
  | token :: rest =>
    -- A value is complete: it goes into the innermost frame.
    let place (frames : List Frame) (v : Json) : Document :=
      match frames with
      | [] => ⟨v, !rest.isEmpty⟩
      | .arr items :: outer => run (.arr (v :: items) :: outer) .next rest
      | .obj members key :: outer =>
        run (.obj (key.member v :: members) (.text "") :: outer) .next rest
    -- A key is complete: it is kept until its value comes.
    let awaitValue (key : Key) : Document :=
      match frames with
      | .obj members _ :: outer => run (.obj members key :: outer) .colon rest
      | _ => refuse frames
    match want, token with
    | .value _, .openArr => run (.arr [] :: frames) (.value true) rest
    | .value _, .openObj => run (.obj [] (.text "") :: frames) (.key true) rest
    | .value _, .str s => place frames (.str s)
    | .value _, .unreadableStr => place frames unreadable
    | .value _, .value v => place frames v
    | .value _, .broken _ reading passing => abandon frames (.fault reading (some passing))
    | .value true, .closeArr =>
      match frames with
      | .arr items :: outer => place outer (.arr items.reverse)
      | _ => refuse frames
    | .key _, .str s => awaitValue (.text s)
    | .key _, .unreadableStr => awaitValue .unreadable
    | .key _, .broken true reading passing => abandon frames (brokenKey reading passing)
    | .key true, .closeObj =>
      match frames with
      | .obj members _ :: outer => place outer (.obj members.reverse)
      | _ => refuse frames
    | .colon, .colon => run frames (.value false) rest
    | .next, .comma =>
      match frames with
      | .arr _ :: _ => run frames (.value false) rest
      | .obj _ _ :: _ => run frames (.key false) rest
      | [] => refuse frames
    | .next, .closeArr =>
      match frames with
      | .arr items :: outer => place outer (.arr items.reverse)
      | _ => refuse frames
    | .next, .closeObj =>
      match frames with
      | .obj members _ :: outer => place outer (.obj members.reverse)
      | _ => refuse frames
    | _, _ => refuse frames

/-- Reads a text as one value. -/
def parse (text : String) : Document := run [] (.value false) (tokens text)

end Json
end SafetyLint
