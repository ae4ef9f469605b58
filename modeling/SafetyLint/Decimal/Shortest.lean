/-!
# The shortest decimal of a binary fraction

A finite double is `m * 2 ^ q` for natural `m`.  The reals that round to it form an interval around
it, and among the decimals in that interval the shortest one is written: the fewest digits first,
and among those the one nearest to the double, the greater of two at the same distance.

For a place `t` the multiples of `10 ^ t` form a grid.  The grids are tried from coarse to fine.  On
each of them only the two neighbours of the value can be nearest, and the first grid on which one of
them lies in the interval gives the answer.  All arithmetic is exact: the three numbers that matter
are written over one denominator.
-/

namespace SafetyLint
namespace Decimal

/-- A value with the ends of the interval of reals that round to it, over a common denominator. -/
structure Interval where
  low : Nat
  value : Nat
  high : Nat
  denom : Nat
  /-- The ends round to the value themselves. -/
  closed : Bool

/-- A power of ten. -/
def tenTo (k : Nat) : Nat := Nat.pow 10 k

/-- A decimal `digits * 10 ^ place`. -/
structure Digits where
  digits : Nat
  place : Int
  deriving DecidableEq, Repr

namespace Interval

/-- The interval of `m * 2 ^ q`.  Below a power of two the neighbours are half as far away, which
`narrow` says. -/
def ofBinary (m : Nat) (q : Int) (narrow : Bool) : Interval :=
  let scale := Nat.pow 2 (q - 2).toNat
  { low := (4 * m - if narrow then 1 else 2) * scale
    value := 4 * m * scale
    high := (4 * m + 2) * scale
    denom := Nat.pow 2 (2 - q).toNat
    closed := m % 2 = 0 }

/-- The fraction `n / d` lies in the interval. -/
def holds (i : Interval) (n d : Nat) : Bool :=
  if i.closed then i.low * d ≤ n * i.denom && n * i.denom ≤ i.high * d
  else i.low * d < n * i.denom && n * i.denom < i.high * d

/-- Numerator and denominator of `k * 10 ^ place`. -/
def gridPoint (k : Nat) (place : Int) : Nat × Nat :=
  (k * tenTo place.toNat, tenTo (-place).toNat)

/-- The multiple of `10 ^ place` just below the value or at it. -/
def floorAt (i : Interval) (place : Int) : Nat :=
  i.value * tenTo (-place).toNat / (i.denom * tenTo place.toNat)

/-- `k * 10 ^ place` lies in the interval. -/
def holdsAt (i : Interval) (k : Nat) (place : Int) : Bool :=
  i.holds (gridPoint k place).1 (gridPoint k place).2

/-- The value is nearer to the lower of its two neighbours on the grid. -/
def nearerBelow (i : Interval) (k : Nat) (place : Int) : Bool :=
  let (low, d) := gridPoint k place
  let (high, _) := gridPoint (k + 1) place
  -- value - low < high - value
  2 * i.value * d < (low + high) * i.denom

/-- The point of one grid that stands for the value, if the grid has one in the interval. -/
def onGrid (i : Interval) (place : Int) : Option Nat :=
  let k := i.floorAt place
  match i.holdsAt k place, i.holdsAt (k + 1) place with
  | true, true => some (if i.nearerBelow k place then k else k + 1)
  | true, false => some k
  | false, true => some (k + 1)
  | false, false => none

/-- Tries `fuel + 1` grids from `place` on towards finer ones. -/
def search (i : Interval) : Nat → Int → Digits
  | 0, place => ⟨i.floorAt place, place⟩
  | fuel + 1, place =>
    match i.onGrid place with
    | some k => ⟨k, place⟩
    | none => search i fuel (place - 1)

/-- The place of the first digit of the value. -/
def leadingPlace (i : Interval) : Int :=
  if i.denom ≤ i.value then ((Nat.toDigits 10 (i.value / i.denom)).length : Int) - 1
  else below 400 0
where
  /-- Goes down from place `0` until the value reaches a whole unit of the place. -/
  below : Nat → Nat → Int
    | 0, k => -(k : Int)
    | fuel + 1, k =>
      if i.denom ≤ i.value * tenTo k then -(k : Int) else below fuel (k + 1)

/-- The shortest decimal in the interval; seventeen digits always suffice. -/
def shortest (i : Interval) : Digits := i.search 18 i.leadingPlace

end Interval

/-- The decimal written out without an exponent and without closing zeros behind the point. -/
def Digits.text (d : Digits) : String :=
  if 0 ≤ d.place then toString (d.digits * tenTo d.place.toNat)
  else
    let width := (-d.place).toNat
    let ds := Nat.toDigits 10 d.digits
    let padded := List.replicate (width + 1 - ds.length) '0' ++ ds
    let whole := padded.take (padded.length - width)
    let fraction := ((padded.drop (padded.length - width)).reverse.dropWhile (· == '0')).reverse
    String.ofList (if fraction.isEmpty then whole else whole ++ '.' :: fraction)

/-- The sign of a double stands in the highest of its 64 bits. -/
def signBit : Nat := 9223372036854775808

/-- The fraction of a double has 52 bits. -/
def fractionSize : Nat := 4503599627370496

/-- A double as a decimal. -/
inductive Number where
  | finite (negative : Bool) (d : Digits)
  | infinite (negative : Bool)
  | undefined
  deriving DecidableEq, Repr

/-- The sign in front of a number. -/
def signText (negative : Bool) : String := if negative then "-" else ""

/-- The shortest decimal of a double.  The sign of zero is kept. -/
def ofFloat (x : Float) : Number :=
  let bits : Nat := x.toBits.toNat
  let negative : Bool := bits / signBit = 1
  let exponent : Nat := bits / fractionSize % 2048
  let fraction : Nat := bits % fractionSize
  if exponent = 2047 then if fraction = 0 then .infinite negative else .undefined
  else if exponent = 0 && fraction = 0 then .finite negative ⟨0, 0⟩
  else
    let m := if exponent = 0 then fraction else fractionSize + fraction
    let q : Int := if exponent = 0 then -1074 else (exponent : Int) - 1075
    .finite negative (Interval.ofBinary m q (fraction = 0 && 1 < exponent)).shortest

/-- A double in its shortest decimal form, without an exponent. -/
def floatText (x : Float) : String :=
  match ofFloat x with
  | .finite negative d => signText negative ++ d.text
  | .infinite negative => signText negative ++ "inf"
  | .undefined => "NaN"

end Decimal
end SafetyLint
