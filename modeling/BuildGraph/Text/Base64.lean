import BuildGraph.Text.Blank

namespace BuildGraph.Text

/-!
# Bytes in base 64

Four characters stand for three bytes.  At the end two or three characters may stand for
one or two bytes; then equals signs complete the four, and the bits that are left over are
zero.
-/

/-- The value of a character in base 64. -/
def sextetOf? (character : Char) : Option Nat :=
  if 'A' ≤ character ∧ character ≤ 'Z' then
    some (character.toNat - 'A'.toNat)
  else if 'a' ≤ character ∧ character ≤ 'z' then
    some (character.toNat - 'a'.toNat + 26)
  else if '0' ≤ character ∧ character ≤ '9' then
    some (character.toNat - '0'.toNat + 52)
  else if character = '+' then
    some 62
  else if character = '/' then
    some 63
  else
    none

/-- The bytes that characters in base 64 stand for. -/
def bytesOfBase64? : List Char → Option (List UInt8)
  | [] => some []
  | [first, second, '=', '='] => do
      let a ← sextetOf? first
      let b ← sextetOf? second
      if b % 16 = 0 then
        return [UInt8.ofNat (a * 4 + b / 16)]
      else
        failure
  | [first, second, third, '='] => do
      let a ← sextetOf? first
      let b ← sextetOf? second
      let c ← sextetOf? third
      if c % 4 = 0 then
        return [UInt8.ofNat (a * 4 + b / 16), UInt8.ofNat (b % 16 * 16 + c / 4)]
      else
        failure
  | first :: second :: third :: fourth :: rest => do
      let a ← sextetOf? first
      let b ← sextetOf? second
      let c ← sextetOf? third
      let d ← sextetOf? fourth
      return UInt8.ofNat (a * 4 + b / 16) :: UInt8.ofNat (b % 16 * 16 + c / 4) ::
        UInt8.ofNat (c % 4 * 64 + d) :: (← bytesOfBase64? rest)
  | _ => none

/-- The text whose bytes are written in base 64; blank characters do not count. -/
def decodeBase64? (text : String) : Option String := do
  let bytes ← bytesOfBase64? (text.toList.filter fun character => !isBlank character)
  String.fromUTF8? (ByteArray.mk bytes.toArray)

end BuildGraph.Text
