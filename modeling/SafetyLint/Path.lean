/-!
# Paths

A path is a text, and the parts between its slashes are its components.  Empty parts and inner dots
do not count, so `a//b` and `a/./b` have the components of `a/b`; a dot in front of everything does
count.  Paths are compared and cut by their components, and what is left of a path keeps its
spelling.
-/

namespace SafetyLint
namespace Path

/-- A component of a path. -/
inductive Component where
  /-- The slash in front of an absolute path. -/
  | root
  /-- A dot in front of a relative path. -/
  | current
  | parent
  | name (s : String)
  deriving DecidableEq, Repr

/-- One character in front of a text that is already cut at the slashes. -/
def consPart (c : Char) (parts : List (List Char)) : List (List Char) :=
  if c = '/' then [] :: parts
  else
    match parts with
    | [] => [[c]]
    | p :: rest => (c :: p) :: rest

/-- The parts between the slashes of a text. -/
def splitParts (cs : List Char) : List (List Char) := cs.foldr consPart [[]]

/-- Parts with slashes between them. -/
def joinParts (parts : List (List Char)) : List Char := ['/'].intercalate parts

/-- The part is no component: it is empty or a dot. -/
def isIdle (part : List Char) : Bool := part = [] || part = ['.']

/-- The component that a part stands for. -/
def component? (part : List Char) : Option Component :=
  if isIdle part then none
  else if part = ['.', '.'] then some .parent
  else some (.name (String.ofList part))

/-- What stands in front of the parts of a path: the slash of an absolute path or the dot of a
relative one. -/
inductive Front where
  | root
  | current
  | none
  deriving DecidableEq

/-- Cuts a path behind its front. -/
def splitFront (cs : List Char) : Front × List Char :=
  match cs with
  | [] => (.none, [])
  | c :: rest =>
    if c = '/' then (.root, rest)
    else if c = '.' && (rest.isEmpty || rest.head? = some '/') then (.current, rest)
    else (.none, cs)

def Front.components : Front → List Component
  | root => [.root]
  | current => [.current]
  | none => []

def Front.text : Front → List Char
  | root => ['/']
  | current => ['.']
  | none => []

/-- The components of a path. -/
def components (path : String) : List Component :=
  let (front, body) := splitFront path.toList
  front.components ++ (splitParts body).filterMap component?

/-! ## Order -/

def Component.rank : Component → Nat
  | root => 0
  | current => 1
  | parent => 2
  | name _ => 3

def Component.text : Component → String
  | name s => s
  | _ => ""

/-- The root comes first, then the dots, then names by their characters. -/
def Component.compare (a b : Component) : Ordering :=
  (Ord.compare a.rank b.rank).then (Ord.compare a.text b.text)

/-- Component lists are compared from the front, and a list comes before its extensions. -/
def compareComponents : List Component → List Component → Ordering
  | [], [] => .eq
  | [], _ :: _ => .lt
  | _ :: _, [] => .gt
  | a :: as, b :: bs => (a.compare b).then (compareComponents as bs)

/-- The order of paths. -/
def compare (a b : String) : Ordering := compareComponents (components a) (components b)

/-! ## Cutting -/

/-- Parts without those at the end that are no components. -/
def trimParts (parts : List (List Char)) : List (List Char) :=
  (parts.reverse.dropWhile isIdle).reverse

/-- What is left of some parts behind their first `n` components. -/
def dropComponents : Nat → List (List Char) → List (List Char)
  | 0, parts => parts
  | _, [] => []
  | n + 1, p :: rest => if isIdle p then dropComponents (n + 1) rest else dropComponents n rest

/-- What is left of a path behind its first `n` components, up to its last component. -/
def dropFirst (n : Nat) (path : String) : String :=
  let (front, body) := splitFront path.toList
  let parts := splitParts body
  match n - front.components.length, front, n with
  | _, _, 0 => String.ofList (front.text ++ joinParts (trimParts parts))
  | k, _, _ =>
    String.ofList (joinParts (trimParts ((dropComponents k parts).dropWhile isIdle)))

/-- The components of `base` are the first components of `path`. -/
def startsWith (path base : String) : Bool := (components base).isPrefixOf (components path)

/-- The path as seen from `base`, if `base` is in front of it. -/
def relativeTo? (path base : String) : Option String :=
  if startsWith path base then some (dropFirst (components base).length path) else none

/-- The path as seen from a base that may be missing; a path elsewhere stays as it is. -/
def relativeTo (path : String) (base : Option String) : String :=
  match base with
  | none => path
  | some b => (relativeTo? path b).getD path

/-! ## Joining and parents -/

def isAbsolute (path : String) : Bool := path.toList.head? = some '/'

/-- The path `child` as seen from `base`; an absolute one is where it says. -/
def join (base child : String) : String :=
  if isAbsolute child || base.isEmpty then child
  else if base.toList.getLast? = some '/' then base ++ child
  else base ++ "/" ++ child

/-- The path without its last component; the root and the empty path have no parent. -/
def parent? (path : String) : Option String :=
  let (front, body) := splitFront path.toList
  let parts := trimParts (splitParts body)
  if parts.isEmpty then if front = .current then some "" else none
  else some (String.ofList (front.text ++ joinParts (trimParts parts.dropLast)))

/-- The parent, or the current directory for a path without one. -/
def parentOrHere (path : String) : String := (parent? path).getD "."

/-- The path and its parents, at most `n` of them. -/
def ancestorsUpTo : Nat → String → List String
  | 0, path => [path]
  | n + 1, path =>
    match parent? path with
    | none => [path]
    | some p => path :: ancestorsUpTo n p

/-- The path and all its parents, nearest first.  A parent has fewer components than its child. -/
def ancestors (path : String) : List String := ancestorsUpTo (components path).length path

end Path
end SafetyLint
