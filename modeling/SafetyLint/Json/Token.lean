import SafetyLint.Json.Value
import SafetyLint.Total

/-!
# JSON tokens

The pieces of a JSON text: brackets, separators, literal words, numbers and strings.  A piece that
breaks off or goes wrong is a broken token, and nothing behind it matters.  What is broken matters
only where such a piece may stand: elsewhere its first character is already one too many.

Numbers without fraction and exponent are integers as far as 64 bits reach, and doubles beyond; a
double is computed from at most 64 bits of its digits and a power of ten.
-/

namespace SafetyLint
namespace Json

/-- A piece of a JSON text. -/
inductive Token where
  | openArr
  | closeArr
  | openObj
  | closeObj
  | comma
  | colon
  /-- A string, which may also be the key of a member. -/
  | str (s : String)
  /-- A string that stands for no text. -/
  | unreadableStr
  /-- A literal word or a number. -/
  | value (v : Json)
  /-- A string, or else a word or number, that is none; its fault for readers and in passing. -/
  | broken (isStr : Bool) (reading passing : Fault)

/-! ## Numbers -/

def isDigit (c : Char) : Bool := '0' ≤ c && c ≤ '9'

def digitValue (c : Char) : Nat := c.toNat - '0'.toNat

/-- The number that a list of digits stands for. -/
def digitsValue (ds : List Char) : Nat := ds.foldl (fun n d => n * 10 + digitValue d) 0

/-- The greatest number of 64 bits. -/
def maxWord : Nat := 18446744073709551615

/-- Digits collected so far as `significand * 10 ^ exponent`. -/
structure Collected where
  significand : Nat
  exponent : Int

/-- Collects the digits before the point.  Once a digit no longer fits, it and all later ones only
raise the exponent. -/
def collectWhole : List Char → Nat → Collected
  | [], s => ⟨s, 0⟩
  | d :: ds, s =>
    if maxWord < s * 10 + digitValue d then ⟨s, (ds.length : Int) + 1⟩
    else collectWhole ds (s * 10 + digitValue d)

/-- Collects the digits behind the point, up to the first that no longer fits. -/
def collectFraction : List Char → Collected → Collected
  | [], c => c
  | d :: ds, c =>
    if maxWord < c.significand * 10 + digitValue d then c
    else collectFraction ds ⟨c.significand * 10 + digitValue d, c.exponent - 1⟩

/-- The double nearest to `10 ^ k`. -/
def powerOfTen (k : Nat) : Float := Float.ofScientific 1 false k

/-- `x * 10 ^ e` in steps of at most `10 ^ 308`; nothing if it is beyond the doubles. -/
def scale (x : Float) (e : Int) : Option Float :=
  if e.natAbs ≤ 308 then
    if 0 ≤ e then
      let y := x * powerOfTen e.natAbs
      if y.isInf then none else some y
    else some (x / powerOfTen e.natAbs)
  else if x == 0.0 then some x
  else if 0 ≤ e then none
  else scale (x / powerOfTen 308) (e + 308)
termination_by e.natAbs
decreasing_by omega

/-- The double with the given sign and collected digits. -/
def floatValue (negative : Bool) (c : Collected) : Json :=
  match scale (UInt64.ofNat c.significand).toFloat c.exponent with
  | some x => .float (if negative then -x else x)
  | none => unreadable

/-- A number without fraction and exponent.  Negative zero is a double. -/
def wholeValue (negative : Bool) (ds : List Char) : Json :=
  let n := digitsValue ds
  if negative then
    if 0 < n ∧ n ≤ 9223372036854775808 then .int (-(n : Int))
    else floatValue true (collectWhole ds 0)
  else if n ≤ maxWord then .int n
  else floatValue false (collectWhole ds 0)

/-- A number that lacks a digit in front of `rest`.  In passing nobody looks whether the text ends
there. -/
def missingDigit (rest : List Char) : Token :=
  .broken false (if rest.isEmpty then .truncated else .malformed) .malformed

/-- The exponent of a number, if one starts here: its value and what follows. -/
def scanExponent (negative : Bool) (c : Collected) (atEnd : Json) (cs : List Char) :
    Token × List Char :=
  match cs with
  | e :: rest =>
    if e = 'e' || e = 'E' then
      let (down, unsigned) :=
        match rest with
        | s :: more => if s = '+' then (false, more) else if s = '-' then (true, more)
          else (false, rest)
        | [] => (false, rest)
      let ds := unsigned.takeWhile isDigit
      let after := unsigned.dropWhile isDigit
      if ds.isEmpty then (missingDigit after, after)
      else
        let shift : Int := if down then -(digitsValue ds : Int) else digitsValue ds
        (.value (floatValue negative ⟨c.significand, c.exponent + shift⟩), after)
    else (.value atEnd, cs)
  | [] => (.value atEnd, [])

/-- A number whose sign is already read. -/
def scanNumber (negative : Bool) (cs : List Char) : Token × List Char :=
  let whole := cs.takeWhile isDigit
  let rest := cs.dropWhile isDigit
  match whole with
  | [] => (missingDigit rest, rest)
  | d :: more =>
    if d = '0' && !more.isEmpty then (.broken false .malformed .malformed, rest)
    else
      let c := collectWhole whole 0
      match rest with
      | p :: tail =>
        if p = '.' then
          let fraction := tail.takeWhile isDigit
          let after := tail.dropWhile isDigit
          if fraction.isEmpty then (missingDigit after, after)
          else
            let c := collectFraction fraction c
            scanExponent negative c (floatValue negative c) after
        else scanExponent negative c (wholeValue negative whole) rest
      | [] => (.value (wholeValue negative whole), [])

/-! ## Strings -/

def hexValue? (c : Char) : Option Nat :=
  if '0' ≤ c && c ≤ '9' then some (c.toNat - '0'.toNat)
  else if 'a' ≤ c && c ≤ 'f' then some (c.toNat - 'a'.toNat + 10)
  else if 'A' ≤ c && c ≤ 'F' then some (c.toNat - 'A'.toNat + 10)
  else none

/-- The unit that four hexadecimal digits stand for. -/
def unit? (a b c d : Char) : Option Nat := do
  let a ← hexValue? a
  let b ← hexValue? b
  let c ← hexValue? c
  let d ← hexValue? d
  return ((a * 16 + b) * 16 + c) * 16 + d

/-- The fault of an escape that wants four hexadecimal digits and stands in front of `rest`. -/
def missingUnit (rest : List Char) : Fault :=
  if total Char.utf8Size rest < 4 then .truncated else .malformed

def isHighSurrogate (n : Nat) : Bool := 0xD800 ≤ n && n ≤ 0xDBFF

def isLowSurrogate (n : Nat) : Bool := 0xDC00 ≤ n && n ≤ 0xDFFF

/-- The character of a surrogate pair. -/
def pairChar (high low : Nat) : Char :=
  Char.ofNat (0x10000 + (high - 0xD800) * 0x400 + (low - 0xDC00))

/-- The character of a one-letter escape. -/
def shortEscape? (c : Char) : Option Char :=
  match c with
  | '"' => some '"'
  | '\\' => some '\\'
  | '/' => some '/'
  | 'b' => some '\x08'
  | 'f' => some '\x0c'
  | 'n' => some '\n'
  | 'r' => some '\r'
  | 't' => some '\t'
  | _ => none

/-- A scanned string: its characters, last first; whether they are all readable; the fault at which
the scan stopped before the closing quote; and what follows. -/
structure TextScan where
  chars : List Char
  readable : Bool
  stop : Option Fault
  rest : List Char

/-- What follows the first half of a surrogate pair. -/
inductive SecondHalf where
  /-- The matching half, and what follows it. -/
  | low (n : Nat) (rest : List Char)
  /-- Something else. -/
  | missing
  /-- The text fails right there. -/
  | stopped (f : Fault)

/-- Looks for the second half of a surrogate pair. -/
def secondHalf : List Char → SecondHalf
  | [] => .stopped .truncated
  | ['\\'] => .stopped .truncated
  | '\\' :: 'u' :: rest =>
    match rest with
    | a :: b :: c :: d :: more =>
      match unit? a b c d with
      | some n => if isLowSurrogate n then .low n more else .missing
      | none => .stopped .malformed
    | _ => .stopped (missingUnit rest)
  | _ => .missing

theorem length_lt_of_secondHalf {cs rest : List Char} {n : Nat}
    (h : secondHalf cs = .low n rest) : rest.length < cs.length := by
  unfold secondHalf at h
  split at h
  · simp at h
  · simp at h
  · split at h
    · split at h
      · split at h
        · cases h
          simp only [List.length_cons]
          omega
        · simp at h
      · simp at h
    · simp at h
  · simp at h

/-- Scans a string from behind its opening quote. -/
def scanText (acc : List Char) (readable : Bool) (cs : List Char) : TextScan :=
  match cs with
  | [] => ⟨acc, readable, some .truncated, []⟩
  | c :: rest =>
    if c = '"' then ⟨acc, readable, none, rest⟩
    else if c = '\\' then
      match rest with
      | [] => ⟨acc, readable, some .truncated, []⟩
      | e :: more =>
        if e = 'u' then
          match more with
          | a :: b :: c :: d :: tail =>
            match unit? a b c d with
            | none => ⟨acc, readable, some .malformed, tail⟩
            | some n =>
              if isLowSurrogate n then scanText acc false tail
              else if isHighSurrogate n then
                match _h : secondHalf tail with
                | .low m after => scanText (pairChar n m :: acc) readable after
                | .missing => scanText acc false tail
                | .stopped f => ⟨acc, readable, some f, tail⟩
              else scanText (Char.ofNat n :: acc) readable tail
          | _ => ⟨acc, readable, some (missingUnit more), []⟩
        else
          match shortEscape? e with
          | some d => scanText (d :: acc) readable more
          | none => ⟨acc, readable, some .malformed, more⟩
    else if c.toNat < 0x20 then ⟨acc, readable, some .malformed, rest⟩
    else scanText (c :: acc) readable rest
termination_by cs.length
decreasing_by
  all_goals simp only [List.length_cons]
  all_goals first
    | omega
    | exact Nat.lt_of_lt_of_le (length_lt_of_secondHalf ‹_›) (by omega)

/-- The token of a scanned string.  A reader stops at the first character that cannot be read, also
when the string breaks off later. -/
def TextScan.token (scan : TextScan) : Token :=
  match scan.readable, scan.stop with
  | true, none => .str (String.ofList scan.chars.reverse)
  | true, some f => .broken true f f
  | false, none => .unreadableStr
  | false, some f => .broken true .malformed f

/-! ## Tokens of a text -/

def isSpace (c : Char) : Bool := c = ' ' || c = '\n' || c = '\t' || c = '\r'

/-- A literal word after its first letter. -/
def scanWord (word : List Char) (v : Json) (cs : List Char) : Token × List Char :=
  match word with
  | [] => (.value v, cs)
  | w :: ws =>
    match cs with
    | [] => (.broken false .truncated .truncated, [])
    | c :: rest =>
      if c = w then scanWord ws v rest else (.broken false .malformed .malformed, rest)

theorem length_dropWhile_le {p : Char → Bool} (cs : List Char) :
    (cs.dropWhile p).length ≤ cs.length := by
  induction cs with
  | nil => simp
  | cons c rest ih =>
    rw [List.dropWhile_cons]
    split
    · simp only [List.length_cons]
      omega
    · exact Nat.le_refl _

theorem length_scanWord_le (word : List Char) (v : Json) (cs : List Char) :
    (scanWord word v cs).2.length ≤ cs.length := by
  induction word generalizing cs with
  | nil => simp [scanWord]
  | cons w ws ih =>
    cases cs with
    | nil => simp [scanWord]
    | cons c rest =>
      rw [scanWord]
      split
      · have := ih rest
        simp only [List.length_cons]
        omega
      · simp

theorem length_scanExponent_le (negative : Bool) (c : Collected) (atEnd : Json) (cs : List Char) :
    (scanExponent negative c atEnd cs).2.length ≤ cs.length := by
  unfold scanExponent
  split
  · next e rest =>
    split
    · split
      next down unsigned heq =>
      have hu : unsigned.length ≤ rest.length := by
        split at heq
        · split at heq
          · cases heq; simp
          · split at heq <;> cases heq <;> simp
        · cases heq; simp
      have hd := length_dropWhile_le (p := isDigit) unsigned
      simp only [List.length_cons]
      split <;> simp only <;> omega
    · exact Nat.le_refl _
  · simp

theorem length_scanNumber_le (negative : Bool) (cs : List Char) :
    (scanNumber negative cs).2.length ≤ (cs.dropWhile isDigit).length := by
  unfold scanNumber
  simp only
  split
  · exact Nat.le_refl _
  · split
    · exact Nat.le_refl _
    · split
      · next p tail heq =>
        rw [heq, List.length_cons]
        split
        · have hf := length_dropWhile_le (p := isDigit) tail
          split
          · simp only
            omega
          · exact Nat.le_trans (length_scanExponent_le _ _ _ _) (by omega)
        · exact length_scanExponent_le _ _ _ _
      · simp

theorem length_scanNumber_le_length (negative : Bool) (cs : List Char) :
    (scanNumber negative cs).2.length ≤ cs.length :=
  Nat.le_trans (length_scanNumber_le negative cs) (length_dropWhile_le cs)

/-- A number that starts with a digit takes that digit. -/
theorem length_scanNumber_cons_le (negative : Bool) {c : Char} (cs : List Char)
    (hc : isDigit c = true) : (scanNumber negative (c :: cs)).2.length ≤ cs.length := by
  refine Nat.le_trans (length_scanNumber_le negative (c :: cs)) ?_
  rw [List.dropWhile_cons_of_pos hc]
  exact length_dropWhile_le cs

theorem length_scanText_le (acc : List Char) (readable : Bool) (cs : List Char) :
    (scanText acc readable cs).rest.length ≤ cs.length := by
  fun_induction scanText acc readable cs <;> simp_all <;> try omega
  next h ih =>
    have := length_lt_of_secondHalf h
    omega

/-- The tokens of a text behind those already found, which stand last first. -/
def tokensFrom (found : List Token) (cs : List Char) : List Token :=
  match cs with
  | [] => found.reverse
  | c :: rest =>
    if isSpace c then tokensFrom found rest
    else if c = '[' then tokensFrom (.openArr :: found) rest
    else if c = ']' then tokensFrom (.closeArr :: found) rest
    else if c = '{' then tokensFrom (.openObj :: found) rest
    else if c = '}' then tokensFrom (.closeObj :: found) rest
    else if c = ',' then tokensFrom (.comma :: found) rest
    else if c = ':' then tokensFrom (.colon :: found) rest
    else if c = '"' then
      let scan := scanText [] true rest
      tokensFrom (scan.token :: found) scan.rest
    else if c = 'n' then
      let scan := scanWord ['u', 'l', 'l'] .null rest
      tokensFrom (scan.1 :: found) scan.2
    else if c = 't' then
      let scan := scanWord ['r', 'u', 'e'] (.bool true) rest
      tokensFrom (scan.1 :: found) scan.2
    else if c = 'f' then
      let scan := scanWord ['a', 'l', 's', 'e'] (.bool false) rest
      tokensFrom (scan.1 :: found) scan.2
    else if c = '-' then
      let scan := scanNumber true rest
      tokensFrom (scan.1 :: found) scan.2
    else if isDigit c then
      let scan := scanNumber false (c :: rest)
      tokensFrom (scan.1 :: found) scan.2
    else (.broken false .malformed .malformed :: found).reverse
termination_by cs.length
decreasing_by
  all_goals simp only [List.length_cons]
  all_goals first
    | omega
    | exact Nat.lt_succ_of_le (length_scanText_le _ _ rest)
    | exact Nat.lt_succ_of_le (length_scanWord_le _ _ rest)
    | exact Nat.lt_succ_of_le (length_scanNumber_le_length true rest)
    | exact Nat.lt_succ_of_le (length_scanNumber_cons_le false rest ‹_›)

/-- Tokens found earlier stay in front of what is found. -/
theorem tokensFrom_append (found before : List Token) (cs : List Char) :
    tokensFrom (found ++ before) cs = before.reverse ++ tokensFrom found cs := by
  fun_induction tokensFrom found cs with
  | case1 found =>
    rw [tokensFrom, List.reverse_append]
  | _ =>
    rw [tokensFrom]
    simp_all +zetaDelta

/-- The tokens found so far stand in front of the others. -/
theorem tokensFrom_eq (found : List Token) (cs : List Char) :
    tokensFrom found cs = found.reverse ++ tokensFrom [] cs :=
  tokensFrom_append [] found cs

/-- The tokens of a text. -/
def tokens (text : String) : List Token := tokensFrom [] text.toList

end Json
end SafetyLint
