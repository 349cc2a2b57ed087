import BuildGraph.Number.Digits
import BuildGraph.Text.Quoted
import BuildGraph.Version.Basic

namespace BuildGraph.Version

/-!
# Reading versions

The reader takes the parts of a version from left to right and names the first part
that is wrong.
-/

/-- A part of a version. -/
inductive Part where
  | major
  | minor
  | patch
  | preRelease
  | build
  deriving Repr, DecidableEq

/-- What a message calls a part. -/
def Part.description : Part → String
  | .major => "major version number"
  | .minor => "minor version number"
  | .patch => "patch version number"
  | .preRelease => "pre-release identifier"
  | .build => "build metadata"

/-- Why a text is no version. -/
inductive ReadError where
  | empty
  | unexpectedEnd (part : Part)
  | unexpectedCharacter (character : Char) (part : Part)
  | unexpectedCharacterAfter (character : Char) (part : Part)
  | leadingZero (part : Part)
  | tooLarge (part : Part)
  | emptySegment (part : Part)
  deriving Repr, DecidableEq

/-- What is wrong with the text, for a reader. -/
def ReadError.message : ReadError → String
  | .empty => "empty string, expected a semver version"
  | .unexpectedEnd part =>
      "unexpected end of input while parsing " ++ part.description
  | .unexpectedCharacter character part =>
      "unexpected character " ++ Text.quotedCharacter character ++
        " while parsing " ++ part.description
  | .unexpectedCharacterAfter character part =>
      "unexpected character " ++ Text.quotedCharacter character ++
        " after " ++ part.description
  | .leadingZero part => "invalid leading zero in " ++ part.description
  | .tooLarge part => "value of " ++ part.description ++ " exceeds u64::MAX"
  | .emptySegment part => "empty identifier segment in " ++ part.description

/-- A number at the front of a text, and the rest of the text. -/
def readNumber
    (part : Part)
    (text : List Char) :
    Except ReadError (Nat × List Char) :=
  let digits := text.takeWhile Char.isDigit
  let rest := text.dropWhile Char.isDigit
  match digits, rest with
  | [], [] => .error (.unexpectedEnd part)
  | [], character :: _ => .error (.unexpectedCharacter character part)
  | first :: others, _ =>
      if first = '0' ∧ others ≠ [] then
        .error (.leadingZero part)
      else if Number.twoTo 64 ≤ Number.digitsValue digits then
        .error (.tooLarge part)
      else
        .ok (Number.digitsValue digits, rest)

/-- The text behind a point. -/
def readPoint (part : Part) : List Char → Except ReadError (List Char)
  | [] => .error (.unexpectedEnd part)
  | character :: rest =>
      if character = '.' then
        .ok rest
      else
        .error (.unexpectedCharacterAfter character part)

/-- Characters of an identifier. -/
def isIdentifierCharacter (character : Char) : Bool :=
  character.isAlphanum || character = '-'

/-- The pieces of a text between its points. -/
def segments : List Char → List (List Char)
  | [] => [[]]
  | character :: rest =>
      if character = '.' then
        [] :: segments rest
      else
        match segments rest with
        | [] => [[character]]
        | segment :: others => (character :: segment) :: others

/-- Reject an empty identifier and, before the release, a number with a leading zero. -/
def checkSegment (part : Part) (segment : List Char) : Except ReadError Unit :=
  if segment = [] then
    .error (.emptySegment part)
  else if part = .preRelease ∧ segment.all Char.isDigit ∧
      segment.head? = some '0' ∧ 1 < segment.length then
    .error (.leadingZero part)
  else
    .ok ()

/-- Identifiers at the front of a text, and the rest of the text. -/
def readIdentifiers
    (part : Part)
    (text : List Char) :
    Except ReadError (List String × List Char) := do
  let belongs := fun character => isIdentifierCharacter character || character = '.'
  let found := segments (text.takeWhile belongs)
  found.forM (checkSegment part)
  return (found.map String.ofList, text.dropWhile belongs)

/-- Identifiers behind their sign, if the text goes on with the sign. -/
def readSigned
    (sign : Char)
    (part : Part)
    (text : List Char) :
    Except ReadError (List String × List Char) :=
  match text with
  | character :: rest =>
      if character = sign then readIdentifiers part rest else .ok ([], text)
  | [] => .ok ([], [])

/-- The part that a rest of text directly follows. -/
def lastPart (preRelease build : List String) : Part :=
  if build ≠ [] then .build
  else if preRelease ≠ [] then .preRelease
  else .patch

/-- The version that a text writes. -/
def read (text : String) : Except ReadError Version := do
  if text = "" then
    throw .empty
  let (major, afterMajor) ← readNumber .major text.toList
  let (minor, afterMinor) ← readNumber .minor (← readPoint .major afterMajor)
  let (patch, afterPatch) ← readNumber .patch (← readPoint .minor afterMinor)
  let (preRelease, afterPreRelease) ← readSigned '-' .preRelease afterPatch
  let (build, rest) ← readSigned '+' .build afterPreRelease
  match rest with
  | [] => return { major, minor, patch, preRelease, build }
  | character :: _ =>
      throw (.unexpectedCharacterAfter character (lastPart preRelease build))

end BuildGraph.Version
