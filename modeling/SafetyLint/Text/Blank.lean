/-!
# Blank characters and trimming

A character is blank when it belongs to the Unicode property White_Space.  Trimming removes blank
characters from the ends of a text and leaves those inside alone.
-/

namespace SafetyLint
namespace Text

/-- The ranges of the Unicode property White_Space, in order. -/
def blankRanges : List (Nat × Nat) :=
  [(0x0009, 0x000D), (0x0020, 0x0020), (0x0085, 0x0085), (0x00A0, 0x00A0), (0x1680, 0x1680),
   (0x2000, 0x200A), (0x2028, 0x2029), (0x202F, 0x202F), (0x205F, 0x205F), (0x3000, 0x3000)]

/-- The character is white space. -/
def isBlank (c : Char) : Bool :=
  blankRanges.any fun r => r.1 ≤ c.toNat && c.toNat ≤ r.2

/-- The text without the blank characters at its start. -/
def trimStart (cs : List Char) : List Char := cs.dropWhile isBlank

/-- The text without the blank characters at its end. -/
def trimEnd (cs : List Char) : List Char := (cs.reverse.dropWhile isBlank).reverse

/-- The text without the blank characters at its two ends. -/
def trim (cs : List Char) : List Char := trimEnd (trimStart cs)

/-- The text in lower case, where only the letters of ASCII have a lower case. -/
def lower (s : String) : String := String.ofList (s.toList.map Char.toLower)

/-- Two texts agree up to the case of ASCII letters. -/
def sameLetters (a b : String) : Bool := lower a == lower b

end Text
end SafetyLint
