import BuildGraph.Number.Binary64

namespace BuildGraph.Number

/-!
# The shortest decimal form of a floating-point number

The real numbers that round to a floating-point number form an interval, and its ends
belong to it when the mantissa is even.  The shortest form has the fewest digits of all
decimals in the interval, and of those it is the one nearest to the number.
-/

/-- The reals that round to a number, over a common denominator. -/
structure RoundingInterval where
  low : Nat
  value : Nat
  high : Nat
  denominator : Nat
  includesEnds : Bool

/-- The interval of reals that round to the size of a number. -/
def roundingInterval (number : Binary64) : RoundingInterval :=
  let (numerator, denominator) := number.ratio
  let (unitNumerator, unitDenominator) :=
    ({ number with mantissa := 1 } : Binary64).ratio
  -- All of them over four times the denominator; both ratios share their denominator.
  let below :=
    if number.mantissa = twoTo 52 ∧ lowestExponent < number.exponent then 1 else 2
  { low := 4 * numerator - below * unitNumerator
    value := 4 * numerator
    high := 4 * numerator + 2 * unitNumerator
    denominator := 4 * max denominator unitDenominator
    includesEnds := number.mantissa % 2 = 0 }

/-- Whether `digits * 10 ^ exponent` rounds to the number. -/
def RoundingInterval.contains
    (interval : RoundingInterval)
    (digits : Nat)
    (exponent : Int) :
    Bool :=
  let scale := tenTo exponent.natAbs
  let (point, factor) :=
    if 0 ≤ exponent then (digits * scale * interval.denominator, 1)
    else (digits * interval.denominator, scale)
  if interval.includesEnds then
    interval.low * factor ≤ point && point ≤ interval.high * factor
  else
    interval.low * factor < point && point < interval.high * factor

/-- The number's size over `10 ^ exponent`, as a ratio. -/
def RoundingInterval.scaled
    (interval : RoundingInterval)
    (exponent : Int) :
    Nat × Nat :=
  if 0 ≤ exponent then
    (interval.value, interval.denominator * tenTo exponent.toNat)
  else
    (interval.value * tenTo (-exponent).toNat, interval.denominator)

/-- The nearest decimal with the given last place, if one of them rounds to the number. -/
def RoundingInterval.decimalAt?
    (interval : RoundingInterval)
    (exponent : Int) :
    Option Nat :=
  let (numerator, denominator) := interval.scaled exponent
  let below := numerator / denominator
  let nearest := divideToNearest numerator denominator
  let farther := if nearest = below then below + 1 else below
  if interval.contains nearest exponent then some nearest
  else if interval.contains farther exponent then some farther
  else none

/-- The decimal with the fewest digits, trying coarser last places first. -/
def RoundingInterval.shortestFrom
    (interval : RoundingInterval)
    (exponent : Int) :
    Nat → Nat × Int
  | 0 => (interval.value / interval.denominator, 0)
  | tries + 1 =>
      match interval.decimalAt? exponent with
      | some digits => (digits, exponent)
      | none => interval.shortestFrom (exponent - 1) tries

/-- How many decimal digits stand in front of the point of a ratio, or zeros behind it. -/
def decimalMagnitude (numerator denominator : Nat) : Int :=
  let integral := numerator / denominator
  if integral = 0 then
    -(((Nat.toDigits 10 (denominator / numerator)).length : Int) - 1)
  else
    (Nat.toDigits 10 integral).length

/-- Digits without zeros at their end, and the exponent that makes up for them. -/
def dropTrailingZeros (digits : List Char) (exponent : Int) : List Char × Int :=
  let kept := (digits.reverse.dropWhile (· = '0')).reverse
  (kept, exponent + (digits.length - kept.length))

/-- The shortest digits of a number that is not zero, and the exponent of their last place. -/
def shortestDigits (number : Binary64) : List Char × Int :=
  let interval := roundingInterval number
  let magnitude := decimalMagnitude interval.value interval.denominator
  let (digits, exponent) := interval.shortestFrom magnitude 20
  dropTrailingZeros (Nat.toDigits 10 digits) exponent

/-- How a decimal is written. -/
structure DecimalFormat where
  /-- The lowest exponent of the first digit that is written without an exponent. -/
  lowestPlain : Int
  /-- The highest exponent of the first digit that is written without an exponent. -/
  highestPlain : Int

/-- Digits with a point in front of the given place. -/
def plainDecimal (digits : List Char) (exponent : Int) : List Char :=
  if 0 ≤ exponent then
    digits ++ List.replicate exponent.toNat '0' ++ ".0".toList
  else
    let fraction := (-exponent).toNat
    if fraction < digits.length then
      digits.take (digits.length - fraction) ++ '.' ::
        digits.drop (digits.length - fraction)
    else
      "0.".toList ++ List.replicate (fraction - digits.length) '0' ++ digits

/-- Digits with a point behind the first of them, and an exponent with its sign. -/
def scientificDecimal (digits : List Char) (leading : Int) : List Char :=
  let mantissa :=
    match digits with
    | [] => []
    | [digit] => [digit]
    | digit :: others => digit :: '.' :: others
  let sign := if leading < 0 then '-' else '+'
  mantissa ++ 'e' :: sign :: Nat.toDigits 10 leading.natAbs

/-- A number as text. -/
def DecimalFormat.write (format : DecimalFormat) (number : Binary64) : String :=
  let sign := if number.isNegative then ['-'] else []
  if number.mantissa = 0 then
    String.ofList (sign ++ "0.0".toList)
  else
    let (digits, exponent) := shortestDigits number
    let leading := exponent + digits.length - 1
    let text :=
      if format.lowestPlain ≤ leading ∧ leading ≤ format.highestPlain then
        plainDecimal digits exponent
      else
        scientificDecimal digits leading
    String.ofList (sign ++ text)

end BuildGraph.Number
