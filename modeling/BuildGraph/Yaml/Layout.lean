namespace BuildGraph.Yaml

/-!
# The layout of a text

What a character means in YAML depends on the line and the column where it stands.  So a
text is first laid out: every character gets its place, and the rest of a text is a list
of placed characters.

A text may begin with a byte order mark, its lines may end with any of the usual line
breaks, and a null character ends it.  A text that has been laid out always ends with
one.
-/

/-- A character with the place where it stands; everything is counted from zero. -/
structure Placed where
  character : Char
  /-- The number of characters in front of it. -/
  index : Nat
  line : Nat
  column : Nat
  /-- Whether nothing but spaces stands in front of it on its line. -/
  isLeading : Bool
  deriving Repr, DecidableEq

/-- The same text with a line feed as the only line break. -/
def unifyBreaks : List Char → List Char
  | [] => []
  | '\r' :: '\n' :: rest => '\n' :: unifyBreaks rest
  | '\r' :: rest => '\n' :: unifyBreaks rest
  | character :: rest => character :: unifyBreaks rest

/-- Characters that separate words on a line. -/
def isSpace (character : Char) : Bool :=
  character = ' ' || character = '\t'

/-- Place the characters of a text and its end from a place on. -/
def placeFrom (index line column : Nat) (isLeading : Bool) : List Char → List Placed
  | [] => [{ character := '\u0000', index, line, column, isLeading }]
  | character :: rest =>
      { character, index, line, column, isLeading } ::
        if character = '\n' then
          placeFrom (index + 1) (line + 1) 0 true rest
        else
          placeFrom (index + 1) line (column + 1) (isLeading && isSpace character) rest

/-- A text without the byte order mark in front of it. -/
def withoutMark : List Char → List Char
  | '\ufeff' :: rest => rest
  | text => text

/-- Place the characters of a whole text. -/
def layOut (text : String) : List Placed :=
  placeFrom 0 0 0 true
    (unifyBreaks ((withoutMark text.toList).takeWhile (· ≠ '\u0000')))

/-- Whether a character ends the line it stands on. -/
def isLineEnd (character : Char) : Bool :=
  character = '\n' || character = '\u0000'

/-- Characters that structure collections in brackets. -/
def isBracketOrComma (character : Char) : Bool :=
  character = ',' || character = '[' || character = ']' ||
    character = '\x7b' || character = '\x7d'

/-- Characters that stand in words. -/
def isWordCharacter (character : Char) : Bool :=
  character.isAlphanum || character = '_' || character = '-'

/-- Whether a text begins with a character of some kind. -/
def beginsIn (isWanted : Char → Bool) : List Placed → Bool
  | [] => false
  | first :: _ => isWanted first.character

/-- Whether a text begins with a character. -/
def beginsWith (character : Char) (rest : List Placed) : Bool :=
  beginsIn (· = character) rest

/-- Whether a text is at its end. -/
def isAtEnd : List Placed → Bool
  | [] => true
  | first :: _ => first.character = '\u0000'

/-- Whether a text is at the end of a line. -/
def endsLine : List Placed → Bool
  | [] => true
  | first :: _ => isLineEnd first.character

/-- Whether a text is at the end of a word. -/
def endsWord : List Placed → Bool
  | [] => true
  | first :: _ => isSpace first.character || isLineEnd first.character

/-- The characters of some kind in front of a text. -/
def front (isWanted : Char → Bool) (rest : List Placed) : List Char :=
  (rest.takeWhile fun placed => isWanted placed.character).map Placed.character

/-- What stands behind the characters of some kind in front of a text. -/
def behind (isWanted : Char → Bool) (rest : List Placed) : List Placed :=
  rest.dropWhile fun placed => isWanted placed.character

/--
What is left of a line behind spaces and a comment.

A comment has to stand apart from what is in front of it.
-/
def skipLine (rest : List Placed) : Option (List Placed) :=
  if beginsWith '#' rest then
    none
  else
    let text := behind isSpace rest
    if beginsWith '#' text then
      some (behind (fun character => !isLineEnd character) text)
    else
      some text

/-- The line behind spaces and a comment, if nothing else stands on it. -/
def finishLine (rest : List Placed) : Option (List Placed) := do
  let rest ← skipLine rest
  if endsLine rest then
    return rest
  else
    failure

/-- Words of three characters that separate documents. -/
inductive Marker where
  | start
  | finish
  deriving Repr, DecidableEq

/-- The marker that a text begins with. -/
def marker? : List Placed → Option Marker
  | first :: second :: third :: rest =>
      if endsWord rest then
        match first.character, second.character, third.character with
        | '-', '-', '-' => some .start
        | '.', '.', '.' => some .finish
        | _, _, _ => none
      else
        none
  | _ => none

/-- How a reader stands in front of the next part of a text. -/
inductive Approach where
  /-- On a line that may go on. -/
  | free
  /-- Behind a tab that stands where only spaces may, so that no text may follow. -/
  | barred
  /-- In a comment. -/
  | comment
  deriving Repr, DecidableEq

/--
Skip spaces, line breaks and comments.

A tab may indent a line only behind the column in front of the margin, unless the line
has nothing else on it.
-/
def skipBlank (margin : Nat) : Approach → List Placed → Option (List Placed)
  | _, [] => some []
  | approach, first :: rest =>
      if first.character = '\n' then
        skipBlank margin .free rest
      else if first.character = '\u0000' then
        some (first :: rest)
      else
        match approach with
        | .comment => skipBlank margin .comment rest
        | .barred =>
            if isSpace first.character then skipBlank margin .barred rest
            else if first.character = '#' then skipBlank margin .comment rest
            else none
        | .free =>
            if first.character = '\t' ∧ first.isLeading ∧ first.column + 1 < margin then
              skipBlank margin .barred rest
            else if isSpace first.character then skipBlank margin .free rest
            else if first.character = '#' then skipBlank margin .comment rest
            else some (first :: rest)

end BuildGraph.Yaml
