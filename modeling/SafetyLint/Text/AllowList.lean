import SafetyLint.Text.Glob

/-!
# Allow lists

In an allow list `*` stands for any run of characters and every other character for itself, so `?`
and brackets are no wildcards there.  Patterns are rewritten for a library of patterns that knows
more wildcards, and the library compiles them.

What may go wrong with a pattern is up to the library, so the functions that compile have it as a
parameter.  The program has one library; its allow lists keep the patterns as they are written and
compile them when they are asked.
-/

namespace SafetyLint
namespace Text

/-! ## Patterns with one wildcard -/

section

variable (library : PatternLibrary)

/-- Escapes everything but stars, of which it leaves one for each run of stars.  `afterStar` says
whether a star comes right before. -/
def starOnly (afterStar : Bool) : List Char → List Char
  | [] => []
  | c :: rest =>
    if c = '*' then (if afterStar then [] else ['*']) ++ starOnly true rest
    else library.escape [c] ++ starOnly false rest

/-- Compiles a pattern in which only stars are wildcards. -/
def compileStars (raw : List Char) : Except library.Fault library.Pattern :=
  library.compile (starOnly library false raw)

/-- A pattern as it is written, with what it is compiled to. -/
structure GlobPattern where
  raw : String
  compiled : library.Pattern

/-- A pattern that will not do, where it stands and what is wrong with it. -/
structure BadPattern where
  field : String
  pattern : String
  message : String
  deriving DecidableEq, Repr

variable {library}

/-- The pattern matches the whole name. -/
def GlobPattern.accepts (p : GlobPattern library) (name : String) : Bool :=
  library.accepts p.compiled name.toList

/-- Some pattern matches the name. -/
def GlobPattern.someAccepts (patterns : List (GlobPattern library)) (name : String) : Bool :=
  patterns.any fun p => p.accepts name

variable (library)

def GlobPattern.compile (raw : String) : Except library.Fault (GlobPattern library) :=
  (compileStars library raw.toList).map fun compiled => ⟨raw, compiled⟩

/-- Compiles the patterns of a field; the first one that will not do is reported. -/
def GlobPattern.compileAll (field : String) :
    List String → Except BadPattern (List (GlobPattern library))
  | [] => .ok []
  | raw :: rest => do
    let pattern ← (compile library raw).mapError fun fault => ⟨field, raw, library.message fault⟩
    let patterns ← compileAll field rest
    return pattern :: patterns

end

/-- The pattern can be compiled and matches the name. -/
def globMatch (pattern name : List Char) : Bool :=
  match compileStars Glob.library pattern with
  | .ok compiled => Glob.library.accepts compiled name
  | .error _ => false

/-! ## Allow lists -/

/-- Patterns of names that are exempt from a check. -/
structure AllowList where
  patterns : List String
  deriving Inhabited

namespace AllowList

/-- The allow list of a field, if all patterns will do for the library. -/
def compileBy (library : PatternLibrary) (field : String) (raw : List String) :
    Except BadPattern AllowList :=
  (GlobPattern.compileAll library field raw).map fun patterns => ⟨patterns.map GlobPattern.raw⟩

/-- The allow list of a field, if all patterns will do. -/
def compile (field : String) (raw : List String) : Except BadPattern AllowList :=
  compileBy Glob.library field raw

/-- Some pattern matches the name. -/
def allows (list : AllowList) (name : String) : Bool :=
  list.patterns.any fun pattern => globMatch pattern.toList name.toList

end AllowList

end Text
end SafetyLint
