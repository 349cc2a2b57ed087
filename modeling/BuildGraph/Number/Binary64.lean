import BuildGraph.Number.Digits

namespace BuildGraph.Number

/-!
# Binary floating-point numbers

A finite floating-point number is a sign and a mantissa of at most 53 bits times a power
of two.  Exact results are rounded to the nearest such number, and of two equally near
ones to that with the even mantissa.  All arithmetic is on natural numbers.
-/

/-- The number `mantissa * 2 ^ exponent` with a sign. -/
structure Binary64 where
  isNegative : Bool
  mantissa : Nat
  exponent : Int
  deriving Repr, DecidableEq

/-- The lowest exponent of a floating-point number. -/
def lowestExponent : Int := -1074

/-- The highest exponent of a floating-point number. -/
def highestExponent : Int := 971

/-- Divide and round to the nearest integer, and halfway between two to the even one. -/
def divideToNearest (numerator denominator : Nat) : Nat :=
  let quotient := numerator / denominator
  let rest := numerator % denominator
  if denominator < 2 * rest ∨ 2 * rest = denominator ∧ quotient % 2 = 1 then
    quotient + 1
  else
    quotient

/-- A ratio with a power of two taken out of it, as another ratio. -/
def withoutPower (numerator denominator : Nat) (exponent : Int) : Nat × Nat :=
  if 0 ≤ exponent then
    (numerator, denominator * twoTo exponent.toNat)
  else
    (numerator * twoTo (-exponent).toNat, denominator)

/-- The exponent at which a positive ratio has a mantissa of 53 bits, or the lowest one. -/
def exponentFor (numerator denominator : Nat) : Int :=
  let estimate : Int := (numerator.log2 : Int) - (denominator.log2 : Int)
  let (scaledNumerator, scaledDenominator) :=
    withoutPower numerator denominator estimate
  let exact :=
    if scaledDenominator ≤ scaledNumerator then estimate - 52 else estimate - 53
  max exact lowestExponent

namespace Binary64

/-- Zero with a sign. -/
def zero (isNegative : Bool) : Binary64 :=
  { isNegative, mantissa := 0, exponent := lowestExponent }

/-- The nearest number to a ratio, unless the ratio is too large. -/
def ofRatio (isNegative : Bool) (numerator denominator : Nat) : Option Binary64 :=
  if numerator = 0 then
    some (zero isNegative)
  else
    let exponent := exponentFor numerator denominator
    let (scaledNumerator, scaledDenominator) :=
      withoutPower numerator denominator exponent
    let mantissa := divideToNearest scaledNumerator scaledDenominator
    let rounded : Binary64 :=
      if mantissa = twoTo 53 then
        { isNegative, mantissa := twoTo 52, exponent := exponent + 1 }
      else
        { isNegative, mantissa, exponent }
    if rounded.exponent ≤ highestExponent then some rounded else none

/-- The size of a number as a ratio. -/
def ratio (number : Binary64) : Nat × Nat :=
  if 0 ≤ number.exponent then
    (number.mantissa * twoTo number.exponent.toNat, 1)
  else
    (number.mantissa, twoTo (-number.exponent).toNat)

/-- The nearest number to a product, unless it is too large. -/
def times (first second : Binary64) : Option Binary64 :=
  ofRatio (first.isNegative != second.isNegative)
    (first.ratio.1 * second.ratio.1) (first.ratio.2 * second.ratio.2)

/-- The nearest number to a quotient, unless it is too large. -/
def dividedBy (first second : Binary64) : Option Binary64 :=
  ofRatio (first.isNegative != second.isNegative)
    (first.ratio.1 * second.ratio.2) (first.ratio.2 * second.ratio.1)

/-- The number with the other sign. -/
def negate (number : Binary64) : Binary64 :=
  { number with isNegative := !number.isNegative }

/-- The nearest number to an integer. -/
def ofNat (value : Nat) : Option Binary64 :=
  ofRatio false value 1

/-- The nearest number to a power of ten. -/
def powerOfTen (exponent : Nat) : Option Binary64 :=
  ofNat (tenTo exponent)

/--
The nearest number to `digits * 10 ^ exponent`, unless that is too large.

Exponents far outside of the range of floating-point numbers are decided by the number
of digits alone, so no power of such a size is ever formed.
-/
def ofDecimal (isNegative : Bool) (digits : Nat) (exponent : Int) : Option Binary64 :=
  let magnitude : Int := exponent + (Nat.toDigits 10 digits).length
  if digits = 0 ∨ magnitude < -330 then
    some (zero isNegative)
  else if 310 < magnitude then
    none
  else if 0 ≤ exponent then
    ofRatio isNegative (digits * tenTo exponent.toNat) 1
  else
    ofRatio isNegative digits (tenTo (-exponent).toNat)

end Binary64

end BuildGraph.Number
