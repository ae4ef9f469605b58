/-!
# JSON values

A value as it stands in a text: the members of an object keep their order and their repetitions,
because a reader of the value has to see both.

A text may stop being JSON somewhere.  What was read before that place is still a value, with a
fault in the place where reading stopped.  Whoever reads the value in the order of the text meets
its own complaints and the faults of the text in that order, and the first one wins.

Whoever passes over a value looks less closely: half of a surrogate pair or a number beyond the
doubles does not matter then, and a number that breaks off is just no number.  So a fault says what
it means for a reader and what it means in passing.
-/

namespace SafetyLint

/-- Why a text is no JSON from some place on. -/
inductive Json.Fault where
  /-- The text has something that no JSON text has in that place. -/
  | malformed
  /-- The text ends too early. -/
  | truncated
  /-- The text ends too early, right behind an item or a member of an array or object. -/
  | unclosed
  deriving DecidableEq, Repr, Inhabited

/-- A JSON value, or as much of one as a text holds. -/
inductive Json where
  | null
  | bool (b : Bool)
  | int (i : Int)
  | float (x : Float)
  | str (s : String)
  | arr (items : List Json)
  | obj (members : List (String × Json))
  /-- A place where the text fails for whoever reads it, and perhaps for those who pass over it. -/
  | fault (reading : Json.Fault) (passing : Option Json.Fault)
  /-- A value behind a key that stands for no text.  Its member has the empty key. -/
  | hidden (v : Json)
  deriving Inhabited

namespace Json

/-- A fault that nobody can overlook. -/
def broken (f : Fault) : Json := .fault f (some f)

/-- A string or a number that is well-formed but stands for no value: half of a surrogate pair, or a
number beyond the doubles.  It cannot be read, but it can be passed over. -/
def unreadable : Json := .fault .malformed none

/-- The value of the first member with the given key. -/
def get? (key : String) : Json → Option Json
  | obj members => members.lookup key
  | _ => none

end Json

end SafetyLint
