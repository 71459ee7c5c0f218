import Krl.Binary64
import Krl.Text

/-!
# Shortest decimal text of a double

A double is written with the fewest significant digits that read back as the
same double. Every candidate is tested in exact integer arithmetic against the
interval of values that round to the double.
-/

namespace Krl.Binary64

/-- A positive finite double as `significand * 2 ^ exponent`. -/
structure Scaled where
  significand : Nat
  exponent : Int
  deriving DecidableEq, Repr

/-- The significand and exponent that the magnitude encodes. -/
def scaled (number : Binary64) : Scaled :=
  let encoding := number.magnitudeBits
  let field : Nat := encoding / binade
  if field = 0 then ⟨encoding, -1074⟩
  else ⟨encoding % binade + binade, field - 1075⟩

/-- The values that round to a double, over a common denominator: those from
`low / unit` to `high / unit`, with the ends when `closed`. -/
structure Interval where
  low : Nat
  value : Nat
  high : Nat
  unit : Nat
  closed : Bool
  deriving Repr

/-- The interval of a double. Its ends lie halfway to the neighbours, and the
lower neighbour of a power of two is nearer than the upper one. -/
def Scaled.interval (number : Scaled) : Interval :=
  let center := 4 * number.significand
  let isPower := number.significand == binade && number.exponent != -1074
  let below := if isPower then 1 else 2
  let scale := if 0 ≤ number.exponent then Nat.pow 2 number.exponent.toNat else 1
  let unit := if 0 ≤ number.exponent then 1 else Nat.pow 2 (-number.exponent).toNat
  { low := (center - below) * scale
    value := center * scale
    high := (center + 2) * scale
    unit := 4 * unit
    closed := number.significand % 2 == 0 }

/-- Whether `digits * 10 ^ exponent` lies in the interval. -/
def Interval.contains (interval : Interval) (digits : Nat) (exponent : Int) : Bool :=
  let point := digits * Nat.pow 10 exponent.toNat * interval.unit
  let scale := Nat.pow 10 (-exponent).toNat
  let low := interval.low * scale
  let high := interval.high * scale
  (low < point && point < high) || (interval.closed && (point == low || point == high))

/-- A decimal, `digits * 10 ^ exponent`. -/
structure Decimal where
  digits : Nat
  exponent : Int
  deriving DecidableEq, Repr

/-- The decimal nearest to the interval's value among the multiples of
`10 ^ exponent` that lie in the interval; a tie goes upwards. -/
def Interval.nearest? (interval : Interval) (exponent : Int) : Option Decimal :=
  let dividend := interval.value * Nat.pow 10 (-exponent).toNat
  let divisor := interval.unit * Nat.pow 10 exponent.toNat
  let below := dividend / divisor
  let above := below + 1
  let upper := divisor ≤ 2 * (dividend % divisor)
  let first := if upper then above else below
  let second := if upper then below else above
  if interval.contains first exponent then some ⟨first, exponent⟩
  else if interval.contains second exponent then some ⟨second, exponent⟩
  else none

/-- The place of the leading digit of `dividend / divisor`, a positive fraction:
the greatest exponent whose power of ten is at most the fraction. -/
def floorLog10 (dividend divisor : Nat) : Int :=
  if divisor ≤ dividend then
    ((toString (dividend / divisor)).length : Int) - 1
  else
    -- The quotient of the inverse fraction, rounded up, has one digit more than
    -- the number of places to move the point.
    -((toString ((divisor + dividend - 1) / dividend - 1)).length : Int)

/-- The shortest decimal that reads back as the positive finite double: of the
grids with one, two, up to seventeen significant digits, the first that has a
point in the interval decides. Seventeen digits always suffice. -/
def Scaled.shortest (number : Scaled) : Decimal :=
  let interval := number.interval
  let leading := floorLog10 interval.value interval.unit
  ((List.range 17).findSome? fun (place : Nat) => interval.nearest? (leading - place)).getD ⟨0, 0⟩

/-- Positional notation of a decimal: no exponent, no point in a whole number,
and a zero before a leading point. -/
def Decimal.text (decimal : Decimal) : String :=
  let digits := toString decimal.digits
  if 0 ≤ decimal.exponent then
    digits ++ "".pushn '0' decimal.exponent.toNat
  else
    let places := (-decimal.exponent).toNat
    let padded := ("".pushn '0' (places + 1 - digits.length) ++ digits).toList
    let whole := padded.length - places
    let fraction := Text.dropEndWhile (· == '0') (padded.drop whole)
    let head := String.ofList (padded.take whole)
    if fraction.isEmpty then head else head ++ "." ++ String.ofList fraction

/-- The text of a double, as it appears in messages. -/
def text (number : Binary64) : String :=
  let sign := if number.isNegative then "-" else ""
  if infinityBits < number.magnitudeBits then "NaN"
  else if number.magnitudeBits = infinityBits then sign ++ "inf"
  else if number.magnitudeBits = 0 then sign ++ "0"
  else sign ++ number.scaled.shortest.text

end Krl.Binary64
