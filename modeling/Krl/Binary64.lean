/-!
# Double-precision numbers

A number literal denotes the double nearest to its decimal value. Doubles are
kept as their 64-bit encodings, so that equality is decidable, and decimals are
rounded in exact integer arithmetic.
-/

namespace Krl

/-- An IEEE 754 double, given by its encoding. -/
structure Binary64 where
  bits : UInt64
  deriving DecidableEq, Repr

namespace Binary64

/-- The encoding that has only the sign bit. -/
def signBit : Nat := 0x8000000000000000

/-- The distance between the encodings of successive powers of two. It is also the
least significand of a number in the normal range. -/
def binade : Nat := 0x10000000000000

/-- The encoding of positive infinity. It is also the number of encodings of the
finite doubles of one sign. -/
def infinityBits : Nat := 0x7FF0000000000000

/-- Positive infinity. -/
def infinity : Binary64 := ⟨UInt64.ofNat infinityBits⟩

/-- The encoding without its sign bit. -/
def magnitudeBits (number : Binary64) : Nat :=
  number.bits.toNat % signBit

/-- Whether the number is neither infinite nor NaN. -/
def isFinite (number : Binary64) : Bool :=
  number.magnitudeBits < infinityBits

/-- Whether the sign bit is set. -/
def isNegative (number : Binary64) : Bool :=
  signBit ≤ number.bits.toNat

/-- The number with its sign bit flipped. -/
def negate (number : Binary64) : Binary64 :=
  ⟨number.bits ^^^ 0x8000000000000000⟩

/-- The whole number nearest to `dividend / divisor`; a half goes to the even
neighbour. -/
def roundDiv (dividend divisor : Nat) : Nat :=
  let quotient := dividend / divisor
  let double := 2 * (dividend % divisor)
  if double < divisor then quotient
  else if divisor < double then quotient + 1
  else quotient + quotient % 2

/-- The exponent of the highest power of two that is at most
`dividend / divisor`, for a positive fraction. -/
def floorLog2 (dividend divisor : Nat) : Int :=
  let guess := (dividend.log2 : Int) - divisor.log2
  -- The two logarithms leave an error of one, which this comparison settles.
  let fits :=
    if 0 ≤ guess then divisor * Nat.pow 2 guess.toNat ≤ dividend
    else divisor ≤ dividend * Nat.pow 2 (-guess).toNat
  if fits then guess else guess - 1

/-- The nonnegative double nearest to `dividend / divisor`. The significand has
53 bits, or fewer below the normal range, and values past the largest double
become infinity. -/
def ofFraction (dividend divisor : Nat) : Binary64 :=
  if dividend = 0 then
    ⟨0⟩
  else
    let exponent := max (floorLog2 dividend divisor - 52) (-1074)
    let significand :=
      if 0 ≤ exponent then roundDiv dividend (divisor * Nat.pow 2 exponent.toNat)
      else roundDiv (dividend * Nat.pow 2 (-exponent).toNat) divisor
    -- A significand that rounds up to the next power of two carries into the
    -- exponent field, which is the encoding wanted.
    let encoding := (exponent + 1074).toNat * binade + significand
    ⟨UInt64.ofNat (min encoding infinityBits)⟩

/-- The double nearest to `digits * 10 ^ exponent`. -/
def ofDecimal (digits : Nat) (exponent : Int) : Binary64 :=
  if 0 ≤ exponent then ofFraction (digits * Nat.pow 10 exponent.toNat) 1
  else ofFraction digits (Nat.pow 10 (-exponent).toNat)

/-- The double nearest to an integer. -/
def ofInt : Int → Binary64
  | .ofNat whole => ofFraction whole 1
  | .negSucc below => (ofFraction (below + 1) 1).negate

end Binary64

end Krl
