import SafetyLint.Json.Value
import SafetyLint.Decimal.Shortest

/-!
# Writing JSON

Values are written compactly, or over several lines with an indentation of two spaces.  In strings
only the quote, the backslash and the control characters below the space are escaped.  A double can
be told from an integer: it has a point or an exponent.  A double that is no number is written as
`null`.
-/

namespace SafetyLint
namespace Json

/-! ## Numbers -/

/-- The decimal with an exponent, and a point behind the first of several digits. -/
def scientific (d : Decimal.Digits) : String :=
  let ds := Nat.toDigits 10 d.digits
  let mantissa := ds.take 1 ++ if ds.length ≤ 1 then [] else '.' :: ds.drop 1
  String.ofList mantissa ++ "e" ++ toString (d.place + ds.length - 1)

/-- A decimal is written out if its first digit stands at most sixteen places before the point and
at most five behind it, and with an exponent otherwise. -/
def decimalText (d : Decimal.Digits) : String :=
  let first : Int := d.place + (Nat.toDigits 10 d.digits).length
  if -5 < first ∧ first ≤ 16 then if 0 ≤ d.place then d.text ++ ".0" else d.text
  else scientific d

/-- A double as it stands in a text. -/
def doubleText (x : Float) : String :=
  match Decimal.ofFloat x with
  | .finite negative d => Decimal.signText negative ++ decimalText d
  | _ => "null"

/-! ## Strings -/

/-- A hexadecimal digit in lower case. -/
def hexDigit (n : Nat) : Char := (Nat.toDigits 16 n).headD '0'

/-- A character as it stands in a string. -/
def escapeChar (c : Char) : List Char :=
  if c = '"' then ['\\', '"']
  else if c = '\\' then ['\\', '\\']
  else if c = '\n' then ['\\', 'n']
  else if c = '\r' then ['\\', 'r']
  else if c = '\t' then ['\\', 't']
  else if c = '\x08' then ['\\', 'b']
  else if c = '\x0c' then ['\\', 'f']
  else if c.toNat < 0x20 then
    ['\\', 'u', '0', '0', hexDigit (c.toNat / 16), hexDigit (c.toNat % 16)]
  else [c]

/-- A string with its quotes. -/
def quote (s : String) : String := "\"" ++ String.ofList (s.toList.flatMap escapeChar) ++ "\""

/-! ## Values -/

/-- The line break in front of an entry at a depth; nothing in the compact form. -/
def lineBreak (pretty : Bool) (depth : Nat) : String :=
  if pretty then "\n" ++ String.ofList (List.replicate (2 * depth) ' ') else ""

/-- The entries of an array or object between brackets. -/
def bracket (pretty : Bool) (depth : Nat) (left right : String) (entries : List String) : String :=
  if entries.isEmpty then left ++ right
  else
    left ++ lineBreak pretty (depth + 1)
      ++ String.intercalate ("," ++ lineBreak pretty (depth + 1)) entries
      ++ lineBreak pretty depth ++ right

mutual

/-- A value at a depth. -/
def renderAt (pretty : Bool) (depth : Nat) : Json → String
  | null => "null"
  | bool b => if b then "true" else "false"
  | int i => toString i
  | float x => doubleText x
  | str s => quote s
  | arr items => bracket pretty depth "[" "]" (renderItems pretty (depth + 1) items)
  | obj members => bracket pretty depth "\x7b" "\x7d" (renderMembers pretty (depth + 1) members)
  | fault _ _ => "null"
  | hidden v => renderAt pretty depth v

/-- The items of an array, each as a text. -/
def renderItems (pretty : Bool) (depth : Nat) : List Json → List String
  | [] => []
  | v :: rest => renderAt pretty depth v :: renderItems pretty depth rest

/-- The members of an object, each as a text. -/
def renderMembers (pretty : Bool) (depth : Nat) : List (String × Json) → List String
  | [] => []
  | (k, v) :: rest =>
    (quote k ++ (if pretty then ": " else ":") ++ renderAt pretty depth v)
      :: renderMembers pretty depth rest

end

/-- A value on one line. -/
def render (v : Json) : String := renderAt false 0 v

/-- A value over several lines. -/
def renderPretty (v : Json) : String := renderAt true 0 v

end Json
end SafetyLint
