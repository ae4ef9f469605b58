import SafetyLint.Text.Blank

/-!
# Qualified names

Functions, methods and classes may be written with qualifiers: a namespace path in front of a
backslash, or a class in front of a double colon.  Rules compare the part after the qualifiers.
-/

namespace SafetyLint
namespace Text

/-- What follows the last place where `sep` occurs, and the whole text if it occurs nowhere. -/
def afterLast (sep : List Char) (cs : List Char) : List Char :=
  go cs cs
where
  /-- `best` is the answer for the characters already passed. -/
  go (best : List Char) : List Char → List Char
    | [] => best
    | c :: rest =>
      if sep.isPrefixOf (c :: rest) then go ((c :: rest).drop sep.length) rest else go best rest

/-- The name without its qualifiers. -/
def shortName (name : String) : String :=
  String.ofList (afterLast ['\\'] (afterLast [':', ':'] name.toList))

/-- The class name refers to the class in whose body it stands: by one of the words `self` and
`static`, or by the unqualified name of that class. -/
def isSelfReference (className : String) (enclosing : Option String) : Bool :=
  let short := shortName className
  sameLetters short "self" || sameLetters short "static" ||
    enclosing.any fun e => shortName e == short

end Text
end SafetyLint
