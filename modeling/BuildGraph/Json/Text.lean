import BuildGraph.Document
import BuildGraph.Number.Digits
import BuildGraph.Text.Bytes

namespace BuildGraph.Json

/-!
# Texts in JSON

A text stands between double quotes.  Control characters are not allowed in it, and a
backslash begins an escape.  A character beyond the first plane is escaped as a high
surrogate followed by a low one.
-/

/-- The number that four hexadecimal digits at the front of a text stand for. -/
def readFourDigits (text : List Char) : Except Fault Nat :=
  if Text.byteLength (text.take 4) < 4 then
    .error .endInText
  else
    match Number.digitsValueIn? 16 (text.take 4) with
    | some number => .ok number
    | none => .error .invalidEscape

/-- Whether a number is the first half of an escaped pair. -/
def isHighSurrogate (number : Nat) : Bool :=
  0xd800 ≤ number && number ≤ 0xdbff

/-- Whether a number is the second half of an escaped pair. -/
def isLowSurrogate (number : Nat) : Bool :=
  0xdc00 ≤ number && number ≤ 0xdfff

/-- The character behind `\u`, and how many characters of the text it takes. -/
def readCodePoint (text : List Char) : Except Fault (Char × Nat) := do
  let number ← readFourDigits text
  if isLowSurrogate number then
    throw .unpairedLowSurrogate
  if ¬ isHighSurrogate number then
    return (Char.ofNat number, 4)
  match text.drop 4 with
  | [] => throw .endInText
  | '\\' :: rest =>
      match rest with
      | [] => throw .endInText
      | 'u' :: behind =>
          let second ← readFourDigits behind
          if ¬ isLowSurrogate second then
            throw .unpairedLowSurrogate
          return (Char.ofNat
            (0x10000 + (number - 0xd800) * 0x400 + (second - 0xdc00)), 10)
      | _ => throw .unpairedHighSurrogate
  | _ => throw .unpairedHighSurrogate

/-- The character behind a backslash, and how many characters of the text it takes. -/
def readEscape : List Char → Except Fault (Char × Nat)
  | [] => .error .endInText
  | character :: rest =>
      match character with
      | '"' => .ok ('"', 1)
      | '\\' => .ok ('\\', 1)
      | '/' => .ok ('/', 1)
      | 'b' => .ok ('\x08', 1)
      | 'f' => .ok ('\x0c', 1)
      | 'n' => .ok ('\n', 1)
      | 'r' => .ok ('\r', 1)
      | 't' => .ok ('\t', 1)
      | 'u' => (readCodePoint rest).map fun (found, taken) => (found, taken + 1)
      | _ => .error .invalidEscape

/--
The text up to the closing quote, and how many characters it takes with the quote.

The first argument counts the characters that an escape has taken already.
-/
def readText : Nat → List Char → Except Fault (List Char × Nat)
  | _, [] => .error .endInText
  | taken + 1, _ :: rest =>
      (readText taken rest).map fun (text, length) => (text, length + 1)
  | 0, character :: rest =>
      if character = '"' then
        .ok ([], 1)
      else if character = '\\' then
        match readEscape rest with
        | .error fault => .error fault
        | .ok (found, taken) =>
            (readText taken rest).map fun (text, length) =>
              (found :: text, length + 1)
      else if character.toNat < 0x20 then
        .error .controlCharacter
      else
        (readText 0 rest).map fun (text, length) =>
          (character :: text, length + 1)

end BuildGraph.Json
