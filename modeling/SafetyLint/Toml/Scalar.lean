import SafetyLint.Json.Token
import SafetyLint.Toml.Value

/-!
# TOML strings, numbers and moments

Each scanner takes the text from where a value starts and gives the value and what follows it, or
nothing if there is no such value.
-/

namespace SafetyLint
namespace Toml

open Json (isDigit digitsValue hexValue?)

/-- A value and the text behind it. -/
abbrev Scan (α : Type) := Option (α × List Char)

/-! ## Characters -/

/-- Space or tab. -/
def isSpace (c : Char) : Bool := c = ' ' || c = '\t'

/-- A character that may stand in a comment or, delimiters apart, in a string: no control character
but the tab. -/
def isPlain (c : Char) : Bool := c = '\t' || (0x20 ≤ c.toNat && c.toNat ≠ 0x7F)

/-- What follows a line break, if one starts here. -/
def lineBreak? : List Char → Option (List Char)
  | '\n' :: rest => some rest
  | '\r' :: '\n' :: rest => some rest
  | _ => none

theorem length_lineBreak? {cs rest : List Char} (h : lineBreak? cs = some rest) :
    rest.length < cs.length := by
  unfold lineBreak? at h
  split at h
  · cases h; simp
  · cases h; simp only [List.length_cons]; omega
  · simp at h

/-! ## Escapes -/

/-- The number written with hexadecimal digits. -/
def hexNumber? : List Char → Option Nat
  | cs => cs.foldl (fun n c => do return (← n) * 16 + (← hexValue? c)) (some 0)

/-- The character with this code; surrogates are none. -/
def charOfCode? (n : Nat) : Option Char :=
  if n < 0xD800 || (0xDFFF < n && n < 0x110000) then some (Char.ofNat n) else none

/-- The character of an escape with `n` hexadecimal digits. -/
def codeEscape? (n : Nat) (cs : List Char) : Scan Char :=
  if cs.length < n then none
  else ((hexNumber? (cs.take n)).bind charOfCode?).map fun c => (c, cs.drop n)

/-- The character of an escape, from behind the backslash. -/
def escape? : List Char → Scan Char
  | [] => none
  | c :: rest =>
    match c with
    | 'b' => some ('\x08', rest)
    | 't' => some ('\t', rest)
    | 'n' => some ('\n', rest)
    | 'f' => some ('\x0c', rest)
    | 'r' => some ('\r', rest)
    | '"' => some ('"', rest)
    | '\\' => some ('\\', rest)
    | 'u' => codeEscape? 4 rest
    | 'U' => codeEscape? 8 rest
    | _ => none

theorem length_codeEscape? {n : Nat} {cs rest : List Char} {c : Char}
    (h : codeEscape? n cs = some (c, rest)) : rest.length ≤ cs.length := by
  unfold codeEscape? at h
  split at h
  · simp at h
  · simp only [Option.map_eq_some_iff, Prod.mk.injEq] at h
    obtain ⟨_, _, _, rfl⟩ := h
    simp

theorem length_escape? {cs rest : List Char} {c : Char} (h : escape? cs = some (c, rest)) :
    rest.length < cs.length := by
  unfold escape? at h
  split at h
  · simp at h
  · split at h
    all_goals first
      | (cases h; simp)
      | exact Nat.lt_succ_of_le (length_codeEscape? h)
      | simp at h

/-! ## Strings -/

/-- A string between quotes, from behind the opening quote. -/
def basicString (acc : List Char) (cs : List Char) : Scan String :=
  match cs with
  | [] => none
  | c :: rest =>
    if c = '"' then some (String.ofList acc.reverse, rest)
    else if c = '\\' then
      match _h : escape? rest with
      | none => none
      | some (e, after) => basicString (e :: acc) after
    else if isPlain c then basicString (c :: acc) rest
    else none
termination_by cs.length
decreasing_by
  all_goals simp only [List.length_cons]
  all_goals first
    | omega
    | exact Nat.lt_succ_of_lt (length_escape? ‹_›)

/-- A string between apostrophes, from behind the opening one. -/
def literalString (acc : List Char) : List Char → Scan String
  | [] => none
  | c :: rest =>
    if c = '\'' then some (String.ofList acc.reverse, rest)
    else if isPlain c then literalString (c :: acc) rest
    else none

/-- The text behind a run of one character, and the length of the run. -/
def splitRun (c : Char) (cs : List Char) : Nat × List Char :=
  ((cs.takeWhile (· = c)).length, cs.dropWhile (· = c))

/-- How a run of delimiters inside a multi-line string is read: fewer than three are content; three
to five end the string, and those before the last three are content; more are an error. -/
def closeRun (c : Char) (n : Nat) (acc : List Char) : Option (Bool × List Char) :=
  if n < 3 then some (false, List.replicate n c ++ acc)
  else if n ≤ 5 then some (true, List.replicate (n - 3) c ++ acc)
  else none

/-- The text behind spaces, tabs and line breaks. -/
def skipBlank : List Char → List Char
  | '\r' :: '\n' :: rest => skipBlank rest
  | c :: rest => if isSpace c || c = '\n' then skipBlank rest else c :: rest
  | [] => []

theorem length_skipBlank (cs : List Char) : (skipBlank cs).length ≤ cs.length := by
  fun_induction skipBlank cs <;> simp_all only [List.length_cons, Nat.le_refl] <;> omega

/-- What follows the blank rest of a line and all blank space after it, if the rest of the line is
blank. -/
def lineContinuation? (cs : List Char) : Option (List Char) :=
  match lineBreak? (cs.dropWhile isSpace) with
  | none => none
  | some rest => some (skipBlank rest)

theorem length_lineContinuation? {cs rest : List Char} (h : lineContinuation? cs = some rest) :
    rest.length < cs.length := by
  unfold lineContinuation? at h
  split at h
  · simp at h
  · next after hb =>
    cases h
    have h1 := length_lineBreak? hb
    have h2 := Json.length_dropWhile_le (p := isSpace) cs
    have h3 := length_skipBlank after
    omega

theorem length_splitRun_cons (c : Char) (cs : List Char) :
    (splitRun c (c :: cs)).2.length ≤ cs.length := by
  simp only [splitRun]
  rw [List.dropWhile_cons_of_pos (by simp)]
  exact Json.length_dropWhile_le cs

/-- A multi-line string between quotes, from behind the opening quotes. -/
def multiBasic (acc : List Char) (cs : List Char) : Scan String :=
  match cs with
  | [] => none
  | c :: rest =>
    if c = '"' then
      let run := splitRun '"' ('"' :: rest)
      match closeRun '"' run.1 acc with
      | none => none
      | some (true, acc) => some (String.ofList acc.reverse, run.2)
      | some (false, acc) => multiBasic acc run.2
    else if c = '\\' then
      match _h : lineContinuation? rest with
      | some after => multiBasic acc after
      | none =>
        match _h : escape? rest with
        | none => none
        | some (e, after) => multiBasic (e :: acc) after
    else
      match _h : lineBreak? (c :: rest) with
      | some after => multiBasic ('\n' :: acc) after
      | none => if isPlain c then multiBasic (c :: acc) rest else none
termination_by cs.length
decreasing_by
  all_goals first
    | exact Nat.lt_succ_of_le (length_splitRun_cons '"' rest)
    | exact Nat.lt_succ_of_lt (length_lineContinuation? ‹_›)
    | exact Nat.lt_succ_of_lt (length_escape? ‹_›)
    | exact length_lineBreak? ‹_›
    | simp

/-- A multi-line string between apostrophes, from behind the opening ones. -/
def multiLiteral (acc : List Char) (cs : List Char) : Scan String :=
  match cs with
  | [] => none
  | c :: rest =>
    if c = '\'' then
      let run := splitRun '\'' ('\'' :: rest)
      match closeRun '\'' run.1 acc with
      | none => none
      | some (true, acc) => some (String.ofList acc.reverse, run.2)
      | some (false, acc) => multiLiteral acc run.2
    else
      match _h : lineBreak? (c :: rest) with
      | some after => multiLiteral ('\n' :: acc) after
      | none => if isPlain c then multiLiteral (c :: acc) rest else none
termination_by cs.length
decreasing_by
  all_goals first
    | exact Nat.lt_succ_of_le (length_splitRun_cons '\'' rest)
    | exact length_lineBreak? ‹_›
    | simp

/-- The text without a line break at its start. -/
def skipFirstBreak (cs : List Char) : List Char := (lineBreak? cs).getD cs

/-- A string of any kind. -/
def string? : List Char → Scan String
  | '"' :: '"' :: '"' :: rest => multiBasic [] (skipFirstBreak rest)
  | '"' :: rest => basicString [] rest
  | '\'' :: '\'' :: '\'' :: rest => multiLiteral [] (skipFirstBreak rest)
  | '\'' :: rest => literalString [] rest
  | _ => none

/-! ## Numbers -/

/-- Digits with single underscores between them, without the underscores. -/
def digits? (isDigit : Char → Bool) : List Char → Option (List Char)
  | [] => none
  | [c] => if isDigit c then some [c] else none
  | c :: '_' :: rest => if isDigit c then (digits? isDigit rest).map (c :: ·) else none
  | c :: d :: rest => if isDigit c then (digits? isDigit (d :: rest)).map (c :: ·) else none

/-- Digits that do not start with a zero, unless they are a single zero. -/
def wholeDigits? (cs : List Char) : Option (List Char) :=
  match digits? isDigit cs with
  | some ('0' :: _ :: _) => none
  | r => r

/-- A whole number within 64 bits. -/
def boundedInt? (i : Int) : Option Toml :=
  if -9223372036854775808 ≤ i ∧ i ≤ 9223372036854775807 then some (.int i) else none

/-- A number in base 16, 8 or 2. -/
def radixInt? (base : Nat) (cs : List Char) : Option Toml := do
  let ds ← digits? (fun c => (hexValue? c).any (· < base)) cs
  boundedInt? (ds.foldl (fun n c => n * base + (hexValue? c).getD 0) 0 : Nat)

/-- A sign and what follows it. -/
def splitSign : List Char → Option Bool × List Char
  | '+' :: rest => (some false, rest)
  | '-' :: rest => (some true, rest)
  | cs => (none, cs)

/-- The exponent of a float, if the text is one. -/
def exponent? (cs : List Char) : Option Int :=
  match cs with
  | e :: rest =>
    if e = 'e' || e = 'E' then do
      let (sign, ds) := splitSign rest
      let ds ← digits? isDigit ds
      return if sign = some true then -(digitsValue ds : Int) else digitsValue ds
    else none
  | [] => none

/-- The double nearest to `n * 10 ^ e`. -/
def nearest (n : Nat) (e : Int) : Float :=
  if n = 0 then 0.0
  -- Beyond these exponents the result is infinite or zero whatever the digits are.
  else if 400 + (Nat.toDigits 10 n).length < e.natAbs && e < 0 then 0.0
  else if 400 < e then Float.ofScientific 1 false 400
  else Float.ofScientific n (e < 0) e.natAbs

/-- A float without its sign: digits, and a fraction or an exponent or both. -/
def unsignedFloat? (cs : List Char) : Option Float := do
  let isPart := fun c => isDigit c || c = '_'
  let whole ← wholeDigits? (cs.takeWhile isPart)
  let rest := cs.dropWhile isPart
  match rest with
  | '.' :: tail => do
    let fraction ← digits? isDigit (tail.takeWhile isPart)
    let after := tail.dropWhile isPart
    let e ← if after.isEmpty then some 0 else exponent? after
    return nearest (digitsValue (whole ++ fraction)) (e - fraction.length)
  | _ => do
    let e ← exponent? rest
    return nearest (digitsValue whole) e

/-- A number. -/
def number? (cs : List Char) : Option Toml :=
  match cs with
  | '0' :: 'x' :: ds => radixInt? 16 ds
  | '0' :: 'o' :: ds => radixInt? 8 ds
  | '0' :: 'b' :: ds => radixInt? 2 ds
  | _ =>
    let (sign, body) := splitSign cs
    let negative := sign = some true
    if body = ['i', 'n', 'f'] then
      some (.float (if negative then -(1.0 / 0.0) else 1.0 / 0.0))
    else if body = ['n', 'a', 'n'] then some (.float (if negative then -(0.0 / 0.0) else 0.0 / 0.0))
    else
      match wholeDigits? body with
      | some ds => boundedInt? (if negative then -(digitsValue ds : Int) else digitsValue ds)
      | none =>
        match unsignedFloat? body with
        | some x =>
          if negative then some (.float (-x))
          -- A float above all doubles is no float.
          else if x.isInf then none
          else some (.float x)
        | none => none

/-! ## Dates and times -/

/-- The number written with exactly `n` digits, and what follows. -/
def fixedNumber? (n : Nat) (cs : List Char) : Scan Nat :=
  let ds := cs.take n
  if ds.length = n && ds.all isDigit then some (digitsValue ds, cs.drop n) else none

/-- What follows the character, if it comes first. -/
def expect? (c : Char) : List Char → Option (List Char)
  | d :: rest => if c = d then some rest else none
  | [] => none

def isLeapYear (y : Nat) : Bool := (y % 4 = 0 && y % 100 ≠ 0) || y % 400 = 0

def daysIn (year month : Nat) : Nat :=
  if month = 2 then if isLeapYear year then 29 else 28
  else if month = 4 || month = 6 || month = 9 || month = 11 then 30
  else 31

/-- The text of a date, and what follows it. -/
def date? (cs : List Char) : Option (List Char × List Char) := do
  let (year, rest) ← fixedNumber? 4 cs
  let rest ← expect? '-' rest
  let (month, rest) ← fixedNumber? 2 rest
  let rest ← expect? '-' rest
  let (day, rest) ← fixedNumber? 2 rest
  if 1 ≤ month && month ≤ 12 && 1 ≤ day && day ≤ daysIn year month then
    some (cs.take (cs.length - rest.length), rest)
  else none

/-- The text of a fraction of a second: nine digits count, and zeros at the end say nothing. -/
def fractionText (ds : List Char) : List Char :=
  let kept := ((ds.take 9).reverse.dropWhile (· = '0')).reverse
  if kept.isEmpty then [] else '.' :: kept

/-- The text of a time, and what follows it. -/
def time? (cs : List Char) : Option (List Char × List Char) := do
  let (hour, rest) ← fixedNumber? 2 cs
  let rest ← expect? ':' rest
  let (minute, rest) ← fixedNumber? 2 rest
  let rest ← expect? ':' rest
  let (second, rest) ← fixedNumber? 2 rest
  let text := cs.take (cs.length - rest.length)
  if hour ≤ 23 && minute ≤ 59 && second ≤ 60 then
    match rest with
    | '.' :: fraction =>
      let ds := fraction.takeWhile isDigit
      if ds.isEmpty then none else some (text ++ fractionText ds, fraction.dropWhile isDigit)
    | _ => some (text, rest)
  else none

/-- The text of an offset from universal time. -/
def offset? (cs : List Char) : Option (List Char) :=
  match cs with
  | ['z'] => some ['Z']
  | ['Z'] => some ['Z']
  | sign :: rest => do
    let (hour, after) ← fixedNumber? 2 rest
    let after ← expect? ':' after
    let (minute, after) ← fixedNumber? 2 after
    if (sign = '+' || sign = '-') && hour ≤ 23 && minute ≤ 59 && after.isEmpty then
      -- Without a difference there is no direction.
      some ((if hour = 0 && minute = 0 then '+' else sign) :: rest)
    else none
  | [] => none

/-- The usual text of a date, a time or both. -/
def moment? (cs : List Char) : Option String :=
  match date? cs with
  | some (date, []) => some (String.ofList date)
  | some (date, sep :: rest) =>
    if sep = 'T' || sep = 't' || sep = ' ' then do
      let (time, after) ← time? rest
      let offset ← if after.isEmpty then some [] else offset? after
      return String.ofList (date ++ 'T' :: time ++ offset)
    else none
  | none =>
    match time? cs with
    | some (time, []) => some (String.ofList time)
    | _ => none

/-! ## Bare words -/

/-- A character of a number, a moment or a literal word. -/
def isWordChar (c : Char) : Bool :=
  c.isAlphanum || c = '+' || c = '-' || c = '_' || c = '.' || c = ':'

/-- The value of a bare word. -/
def word? (cs : List Char) : Option Toml :=
  if cs = ['t', 'r', 'u', 'e'] then some (.bool true)
  else if cs = ['f', 'a', 'l', 's', 'e'] then some (.bool false)
  else
    match moment? cs with
    | some text => some (.moment text)
    | none => number? cs

/-- A number, a moment or a literal word.  A date may be followed by a space and a time. -/
def bareValue? (cs : List Char) : Scan Toml :=
  let first := cs.takeWhile isWordChar
  let rest := cs.dropWhile isWordChar
  let second := (rest.drop 1).takeWhile isWordChar
  let joined := first ++ ' ' :: second
  if (date? first).any (·.2.isEmpty) && rest.head? = some ' ' && second.head?.any isDigit then
    (moment? joined).map fun text => (.moment text, (rest.drop 1).dropWhile isWordChar)
  else (word? first).map fun v => (v, rest)

end Toml
end SafetyLint
