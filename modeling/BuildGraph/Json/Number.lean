import BuildGraph.Document
import BuildGraph.Number.Digits

namespace BuildGraph.Json

/-!
# Numbers in JSON

A number is an optional minus sign, digits without a leading zero, then optionally a
point with digits and an exponent.

An integer that fits into 64 bits stays exact; any other number becomes a floating-point
number.  Its digits are taken into a 64-bit significand as long as that holds them, and
the significand is then multiplied or divided by a rounded power of ten.
-/

/-- The largest significand. -/
def largestSignificand : Nat := Number.twoTo 64 - 1

/-- Take digits into a significand until it would overflow; the other digits remain. -/
def takeDigits : Nat → List Char → Nat × List Char
  | significand, [] => (significand, [])
  | significand, digit :: rest =>
      let next := significand * 10 + (digit.toNat - '0'.toNat)
      if next ≤ largestSignificand then
        takeDigits next rest
      else
        (significand, digit :: rest)

/-- The largest power of ten that a single step multiplies or divides by. -/
def largestStep : Nat := 308

/--
The places that single steps take when dividing by a power of ten.

Three full steps turn every significand into zero, so more are never needed.
-/
def divisionSteps (places : Nat) : List Nat :=
  let fullSteps := (places - 1) / largestStep
  List.replicate (min fullSteps 3) largestStep ++ [places - fullSteps * largestStep]

/-- Divide by a power of ten, in steps of at most `largestStep` places. -/
def divideByPower (number : Number.Binary64) (places : Nat) : Option Number.Binary64 :=
  (divisionSteps places).foldlM
    (fun current step => do
      current.dividedBy (← Number.Binary64.powerOfTen step))
    number

/-- The floating-point number for a significand and an exponent, unless it is too large. -/
def scale (significand : Nat) (exponent : Int) : Option Number.Binary64 := do
  let number ← Number.Binary64.ofNat significand
  if exponent < 0 then
    divideByPower number exponent.natAbs
  else if exponent.natAbs ≤ largestStep then
    number.times (← Number.Binary64.powerOfTen exponent.natAbs)
  else if significand = 0 then
    some number
  else
    none

/-- A floating-point number with its sign, or the fault of being too large. -/
def decimal
    (isNegative : Bool)
    (significand : Nat)
    (exponent : Int) :
    Except Fault Document :=
  match scale significand exponent with
  | none => .error .numberOutOfRange
  | some number => .ok (.decimal (if isNegative then number.negate else number))

/-- The digits at the front of a text, which has to have one, and the rest. -/
def readDigits (text : List Char) : Except Fault (List Char × List Char) :=
  match text.takeWhile Char.isDigit, text with
  | [], [] => .error .endInValue
  | [], _ :: _ => .error .invalidNumber
  | digits, _ => .ok (digits, text.dropWhile Char.isDigit)

/-- An exponent at the front of a text, if there is one, and the rest. -/
def readExponent (text : List Char) : Except Fault (Option Int × List Char) :=
  match text with
  | character :: rest =>
      if character = 'e' ∨ character = 'E' then
        match rest with
        | '+' :: behindSign => do
            let (digits, behind) ← readDigits behindSign
            return (some (Number.digitsValue digits), behind)
        | '-' :: behindSign => do
            let (digits, behind) ← readDigits behindSign
            return (some (-(Number.digitsValue digits : Int)), behind)
        | rest => do
            let (digits, behind) ← readDigits rest
            return (some (Number.digitsValue digits), behind)
      else
        .ok (none, text)
  | [] => .ok (none, text)

/-- A number whose digits all fit into the significand and that has no other parts. -/
def exactInteger (isNegative : Bool) (significand : Nat) : Except Fault Document :=
  if ¬ isNegative then
    .ok (.integer significand)
  else if 0 < significand ∧ significand ≤ Number.twoTo 63 then
    .ok (.integer (-(significand : Int)))
  else
    decimal true significand 0

/-- The number at the front of a text behind its sign, and the rest. -/
def readUnsigned
    (isNegative : Bool)
    (text : List Char) :
    Except Fault (Document × List Char) := do
  let (digits, behindDigits) ← readDigits text
  if digits.head? = some '0' ∧ digits ≠ ['0'] then
    throw .invalidNumber
  let (integral, dropped) := takeDigits 0 digits
  match behindDigits with
  | '.' :: behindPoint =>
      let (fraction, behindFraction) ← readDigits behindPoint
      let (exponent, rest) ← readExponent behindFraction
      let (significand, ignored) := takeDigits integral fraction
      let places : Int := (fraction.length - ignored.length : Nat)
      let number ←
        decimal isNegative significand
          (exponent.getD 0 + dropped.length - places)
      return (number, rest)
  | behindDigits =>
      let (exponent, rest) ← readExponent behindDigits
      match exponent, dropped with
      | none, [] => return (← exactInteger isNegative integral, rest)
      | exponent, dropped =>
          let number ←
            decimal isNegative integral (exponent.getD 0 + dropped.length)
          return (number, rest)

/-- The number at the front of a text, and the rest. -/
def readNumber (text : List Char) : Except Fault (Document × List Char) :=
  match text with
  | '-' :: behindSign => readUnsigned true behindSign
  | text => readUnsigned false text

end BuildGraph.Json
