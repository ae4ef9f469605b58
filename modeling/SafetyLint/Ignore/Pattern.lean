import SafetyLint.Json.Token

/-!
# Path patterns

Patterns over the bytes of a path: `?` is one byte and `*` a run of bytes, both without slashes;
`**` between slashes is any number of directories; `[...]` is one byte of a class and `{a,b}` one of
several patterns; a backslash takes the next character as it is.

A pattern is a list of tokens.  This module reads patterns; what they match is the matter of the
next one.
-/

namespace SafetyLint
namespace Ignore

/-! ## Tokens -/

/-- A piece of a pattern. -/
inductive Token where
  | char (c : Char)
  /-- One byte that is no slash. -/
  | any
  /-- A run of bytes without slashes. -/
  | run
  /-- Directories in front of a path, or none. -/
  | front
  /-- A slash and all that follows it. -/
  | tail
  /-- A slash, and directories behind it or none. -/
  | middle
  /-- One byte of a class, given by ranges of characters. -/
  | oneOf (negated : Bool) (ranges : List (Char × Char))
  /-- One of several patterns. -/
  | choice (branches : List (List Token))

/-- Why a text is no pattern. -/
inductive PatternFault where
  | unclosedClass
  | invalidRange (first last : Char)
  | unopenedChoice
  | unclosedChoice
  | danglingEscape
  deriving DecidableEq, Repr

def PatternFault.message : PatternFault → String
  | unclosedClass => "unclosed character class; missing ']'"
  | invalidRange first last =>
    "invalid range; '" ++ first.toString ++ "' > '" ++ last.toString ++ "'"
  | unopenedChoice =>
    "unopened alternate group; missing '\x7b' (maybe escape '\x7d' with '[\x7d]'?)"
  | unclosedChoice =>
    "unclosed alternate group; missing '\x7d' (maybe escape '\x7b' with '[\x7b]'?)"
  | danglingEscape => "dangling '\\'"

/-! ## Reading -/

/-- The pieces of a pattern read so far, last first, and the choices that are open around them, each
with the pieces before it and its finished branches. -/
structure Draft where
  tokens : List Token
  outer : List (List Token × List (List Token))

namespace Draft

def empty : Draft := ⟨[], []⟩

def push (d : Draft) (t : Token) : Draft := { d with tokens := t :: d.tokens }

/-- Some choice is open. -/
def inChoice (d : Draft) : Bool := !d.outer.isEmpty

def openChoice (d : Draft) : Draft := ⟨[], (d.tokens, []) :: d.outer⟩

/-- A comma: outside a choice it stands for itself. -/
def comma (d : Draft) : Draft :=
  match d.outer with
  | [] => d.push (.char ',')
  | (before, branches) :: outer => ⟨[], (before, branches ++ [d.tokens.reverse]) :: outer⟩

def closeChoice (d : Draft) : Except PatternFault Draft :=
  match d.outer with
  | [] => .error .unopenedChoice
  | (before, branches) :: outer =>
    .ok ⟨.choice (branches ++ [d.tokens.reverse]) :: before, outer⟩

/-- Two stars that form no `**` of their own. -/
def twoRuns (d : Draft) : Draft := (d.push .run).push .run

/-- Directories behind what was last read, which was a slash. -/
def directories (d : Draft) (atEnd : Bool) : Draft :=
  match d.tokens with
  | .front :: _ => d
  | .tail :: _ => d
  | _ :: rest => { d with tokens := (if atEnd then .tail else .middle) :: rest }
  | [] => d

/-- Two stars after the character `last`: the draft, and what is left of the text. -/
def doubleStar (d : Draft) (last : Option Char) (rest : List Char) : Draft × List Char :=
  if d.tokens.isEmpty then
    match rest with
    | [] => (d.push .front, [])
    | c :: more => if c = '/' then (d.push .front, more) else (d.twoRuns, rest)
  else if last ≠ some '/' && !(d.inChoice && (last = some ',' || last = some '\x7b')) then
    (d.twoRuns, rest)
  else
    match rest with
    | [] => (d.directories true, [])
    | c :: more =>
      if d.inChoice && (c = ',' || c = '\x7d') then (d.directories true, rest)
      else if c = '/' then (d.directories false, more)
      else (d.twoRuns, rest)

theorem length_doubleStar_le (d : Draft) (last : Option Char) (rest : List Char) :
    (d.doubleStar last rest).2.length ≤ rest.length := by
  unfold doubleStar
  split
  · split
    · simp
    · split <;> simp
  · split
    · simp
    · split
      · simp
      · split
        · simp
        · split <;> simp

theorem length_of_doubleStar {d next : Draft} {last : Option Char} {rest after : List Char}
    (h : d.doubleStar last rest.tail = (next, after)) : after.length < rest.length + 1 := by
  have := length_doubleStar_le d last rest.tail
  simp only [h, List.length_tail] at this
  omega

end Draft

/-- The ranges of a class, last first, and what follows the class; nothing if it does not end. -/
def classRanges (ranges : List (Char × Char)) (first inRange : Bool) :
    List Char → Except PatternFault (List (Char × Char) × List Char)
  | [] => .error .unclosedClass
  | c :: rest =>
    if c = ']' && !first then
      .ok (if inRange then ('-', '-') :: ranges else ranges, rest)
    else if c = '-' && !first && !inRange then classRanges ranges false true rest
    else
      match inRange, ranges with
      | true, (low, _) :: others =>
        if c < low then .error (.invalidRange low c)
        else classRanges ((low, c) :: others) false false rest
      | _, _ => classRanges ((c, c) :: ranges) false false rest

theorem length_classRanges {ranges found : List (Char × Char)} {first inRange : Bool}
    {cs rest : List Char} (h : classRanges ranges first inRange cs = .ok (found, rest)) :
    rest.length < cs.length := by
  fun_induction classRanges ranges first inRange cs <;> simp_all <;> omega

/-- A class from behind its opening bracket. -/
def charClass (cs : List Char) : Except PatternFault (Token × List Char) :=
  let negated := cs.head? = some '!' || cs.head? = some '^'
  match classRanges [] true false (if negated then cs.drop 1 else cs) with
  | .ok (ranges, rest) => .ok (.oneOf negated ranges.reverse, rest)
  | .error e => .error e

theorem length_charClass {cs rest : List Char} {t : Token} (h : charClass cs = .ok (t, rest)) :
    rest.length < cs.length := by
  simp only [charClass] at h
  split at h
  · next ranges after hr =>
    cases h
    have := length_classRanges hr
    split at this
    · simp only [List.length_drop] at this
      omega
    · exact this
  · cases h

/-- Reads a pattern.  With `lenient`, a bracket that nobody closes stands for itself, and so do all
later brackets. -/
def readTokens (lenient brackets : Bool) (last : Option Char) (d : Draft) (cs : List Char) :
    Except PatternFault (List Token) :=
  match cs with
  | [] => if d.inChoice then .error .unclosedChoice else .ok d.tokens.reverse
  | c :: rest =>
    if c = '?' then readTokens lenient brackets (some c) (d.push .any) rest
    else if c = '*' then
      if rest.head? = some '*' then
        match _h : d.doubleStar last rest.tail with
        | (next, after) =>
          -- A slash behind the stars may have been taken along.
          readTokens lenient brackets (if after.length < rest.length - 1 then some '/' else some c)
            next after
      else readTokens lenient brackets (some c) (d.push .run) rest
    else if c = '[' && brackets then
      match _h : charClass rest with
      | .ok (t, after) => readTokens lenient brackets (some ']') (d.push t) after
      | .error .unclosedClass =>
        if lenient then readTokens lenient false (some c) (d.push (.char c)) rest
        else .error .unclosedClass
      | .error e => .error e
    else if c = '\x7b' then readTokens lenient brackets (some c) d.openChoice rest
    else if c = '\x7d' then
      match d.closeChoice with
      | .ok d => readTokens lenient brackets (some c) d rest
      | .error e => .error e
    else if c = ',' then readTokens lenient brackets (some c) d.comma rest
    else if c = '\\' then
      match rest.head? with
      | none => .error .danglingEscape
      | some e => readTokens lenient brackets (some e) (d.push (.char e)) rest.tail
    else readTokens lenient brackets (some c) (d.push (.char c)) rest
termination_by cs.length
decreasing_by
  all_goals simp only [List.length_cons]
  all_goals first
    | omega
    | exact Nat.lt_succ_of_lt (length_charClass ‹_›)
    | (simp only [List.length_tail]; omega)
    | exact Draft.length_of_doubleStar ‹_›

/-- The pattern that a text is. -/
def readPattern (lenient : Bool) (text : String) : Except PatternFault (List Token) :=
  readTokens lenient true none .empty text.toList

/-! ## Bytes -/

/-- The bytes of a text. -/
def bytesOf (s : String) : List UInt8 := s.toUTF8.toList

def slash : UInt8 := 47

/-- The ranges of bytes that a range of characters stands for.  Only the last byte of its first and
the first byte of its last character form a range; the others stand for themselves. -/
def byteRanges (r : Char × Char) : List (UInt8 × UInt8) :=
  let low := bytesOf r.1.toString
  let high := bytesOf r.2.toString
  let single (bs : List UInt8) := bs.map fun b => (b, b)
  if r.1 = r.2 then single low
  else single low.dropLast ++ (low.getLast?.getD 0, high.headD 0) :: single high.tail

end Ignore
end SafetyLint
