import BuildGraph.Number.Digits
import BuildGraph.Text.Search
import BuildGraph.Yaml.Layout

namespace BuildGraph.Yaml

/-!
# Names and tags

A node may have a name, by which it can be used again, and a tag, which says what kind of
value it is.  A tag is written as a name in a space of names; the space is given by a
handle between exclamation marks, for which a directive at the beginning of a document
may tell what it stands for.
-/

/-- Characters of names. -/
def isNameCharacter (character : Char) : Bool :=
  !isSpace character && !isLineEnd character && !isBracketOrComma character &&
    character ≠ '\ufeff'

/-- The name at the front of a text, and what stands behind it. -/
def readName (rest : List Placed) : Option (String × List Placed) :=
  let name := front isNameCharacter rest
  if name.isEmpty then
    none
  else
    some (String.ofList name, behind isNameCharacter rest)

/-- Characters of full names of tags. -/
def isFullTagCharacter (character : Char) : Bool :=
  character.isAlphanum || "-_#;/?:@&=+$,.!~*'()[]%".toList.contains character

/-- Characters of names of tags in a space of names. -/
def isTagCharacter (character : Char) : Bool :=
  isFullTagCharacter character && !isBracketOrComma character && character ≠ '!'

/-- The number that two hexadecimal digits stand for. -/
def byteOf? (high low : Char) : Option Nat :=
  Number.digitsValueIn? 16 [high, low]

/--
A name in which characters may be given by their numbers behind percent signs.

Two bytes in a row that UTF-8 marks as belonging together make up one number; longer rows
would make numbers that no character has.
-/
def decodeName : List Char → Option (List Char)
  | [] => some []
  | '%' :: high :: low :: '%' :: nextHigh :: nextLow :: rest => do
      let byte ← byteOf? high low
      if byte < 128 then
        return Char.ofNat byte :: (← decodeName ('%' :: nextHigh :: nextLow :: rest))
      else
        let next ← byteOf? nextHigh nextLow
        let number := byte * 256 + next
        if 192 ≤ byte ∧ byte < 224 ∧ 128 ≤ next ∧ next < 192 ∧ number.isValidChar then
          return Char.ofNat number :: (← decodeName rest)
        else
          failure
  | '%' :: high :: low :: rest => do
      let byte ← byteOf? high low
      if byte < 128 then
        return Char.ofNat byte :: (← decodeName rest)
      else
        failure
  | '%' :: _ => none
  | character :: rest => (decodeName rest).map (character :: ·)

/-- The space of the standard names. -/
def standardSpace : String := "tag:yaml.org,2002:"

/-- A tag as it is written. -/
structure WrittenTag where
  /-- The handle of its space, empty if the tag is given in full. -/
  handle : String
  name : String
  deriving Repr, DecidableEq

/-- The handle at the front of a text, as far as it is one, and what stands behind it. -/
def readHandle (rest : List Placed) : Option (List Char × List Placed) :=
  if beginsWith '!' rest then
    let word := '!' :: front isWordCharacter rest.tail
    let after := behind isWordCharacter rest.tail
    if beginsWith '!' after then
      some (word ++ ['!'], after.tail)
    else
      some (word, after)
  else
    none

/-- Whether a word is a handle of a space of names of its own. -/
def isOwnHandle (word : List Char) : Bool :=
  2 ≤ word.length && word.getLast? = some '!'

/-- The tag at the front of a text, and what stands behind it. -/
def readTag (rest : List Placed) : Option (WrittenTag × List Placed) := do
  if beginsWith '<' rest.tail then
    let text := rest.drop 2
    let name ← decodeName (front isFullTagCharacter text)
    let after := behind isFullTagCharacter text
    if beginsWith '>' after then
      return ({ handle := "", name := String.ofList name }, after.tail)
    else
      failure
  else
    let (word, text) ← readHandle rest
    let name ← decodeName (front isTagCharacter text)
    let after := behind isTagCharacter text
    if isOwnHandle word then
      if name.isEmpty then
        failure
      else
        return ({ handle := String.ofList word, name := String.ofList name }, after)
    else
      let name := word.tail ++ name
      if name.isEmpty then
        return ({ handle := "", name := "!" }, after)
      else
        return ({ handle := "!", name := String.ofList name }, after)

/-- The space at the front of a text that a handle is to stand for. -/
def readSpace (rest : List Placed) : Option (List Char × List Placed) := do
  let (mark, text) :=
    if beginsWith '!' rest then (['!'], rest.tail) else ([], rest)
  if mark.isEmpty ∧ ¬ beginsIn isTagCharacter text then
    failure
  return (mark ++ (← decodeName (front isFullTagCharacter text)),
    behind isFullTagCharacter text)

/-- What a tag says about a value. -/
inductive Tag where
  /-- Nothing: there is no tag. -/
  | none
  /-- That it is nothing. -/
  | null
  /-- That it is a text. -/
  | text
  /-- That it is what it looks like. -/
  | bare
  /-- That it is a text whose bytes are written in base 64. -/
  | binary
  /-- That it is a value of a kind that is not written as a text. -/
  | typed
  /-- Something that has no meaning here. -/
  | unknown
  deriving Repr, DecidableEq

/-- What the standard names of kinds of values mean. -/
def standardTags : List (String × Tag) :=
  [("null", .null), ("str", .text), ("binary", .binary), ("bool", .typed),
    ("int", .typed), ("float", .typed), ("seq", .typed), ("map", .typed),
    ("timestamp", .typed), ("time", .typed), ("degrees", .typed), ("radians", .typed)]

/-- What the tag with a full name says; an exclamation mark may stand for its space. -/
def Tag.ofFullName (name : String) : Tag :=
  if name = "!" then
    .bare
  else
    let behind? := Text.withoutFront? standardSpace.toList name.toList <|>
      Text.withoutFront? ['!'] name.toList
    match behind? with
    | some behind => (standardTags.lookup (String.ofList behind)).getD .unknown
    | .none => .unknown

/--
What a written tag says, where handles stand for some spaces.

Without a directive two exclamation marks stand for the space of the standard names, and
one for itself; other handles need a directive.
-/
def WrittenTag.meaning? (spaces : List (String × String)) (tag : WrittenTag) :
    Option Tag :=
  match spaces.lookup tag.handle with
  | some space => some (.ofFullName (space ++ tag.name))
  | .none =>
      if tag.handle = "!!" then
        some (.ofFullName (standardSpace ++ tag.name))
      else if isOwnHandle tag.handle.toList then
        .none
      else
        some (.ofFullName (tag.handle ++ tag.name))

end BuildGraph.Yaml
