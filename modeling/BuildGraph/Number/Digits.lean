namespace BuildGraph.Number

/-!
# Digits and powers

A number is read digit by digit.  Binary numbers are scaled by powers of two and decimal ones
by powers of ten.
-/

/-- The number that decimal digits stand for. -/
def digitsValue (digits : List Char) : Nat :=
  digits.foldl (fun number digit => number * 10 + (digit.toNat - '0'.toNat)) 0

/-- The value of a hexadecimal digit. -/
def hexadecimalDigit? (character : Char) : Option Nat :=
  if character.isDigit then
    some (character.toNat - '0'.toNat)
  else if 'a' ≤ character ∧ character ≤ 'f' then
    some (character.toNat - 'a'.toNat + 10)
  else if 'A' ≤ character ∧ character ≤ 'F' then
    some (character.toNat - 'A'.toNat + 10)
  else
    none

/-- The value of a digit of a base up to sixteen. -/
def digitOf? (base : Nat) (character : Char) : Option Nat :=
  (hexadecimalDigit? character).filter (· < base)

/-- The number that digits of a base up to sixteen stand for, if all of them are such. -/
def digitsValueIn? (base : Nat) (digits : List Char) : Option Nat :=
  digits.foldlM
    (fun number digit => (digitOf? base digit).map (number * base + ·))
    0

/-- A power of two. -/
def twoTo (exponent : Nat) : Nat := Nat.pow 2 exponent

/-- A power of ten. -/
def tenTo (exponent : Nat) : Nat := Nat.pow 10 exponent

end BuildGraph.Number
