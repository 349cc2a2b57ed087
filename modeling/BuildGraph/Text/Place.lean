import BuildGraph.Text.Bytes

namespace BuildGraph.Text

/-!
# Places in a text

A place is a line and a column, both counted from one, with columns counted in
characters.  A span is a number of bytes from an offset on.  A place beyond the contents
of its line stands for the end of the contents, and a place beyond the last line for the
end of the text.
-/

/-- A line and a column. -/
structure Place where
  line : Nat
  column : Nat
  deriving Repr, DecidableEq

/-- A number of bytes from an offset on. -/
structure Span where
  offset : Nat
  length : Nat
  deriving Repr, DecidableEq

/-- The lines of a text, each with the line break that ends it. -/
def linesWithBreaks : List Char → List (List Char)
  | [] => []
  | character :: rest =>
      if character = '\n' then
        [character] :: linesWithBreaks rest
      else
        match linesWithBreaks rest with
        | [] => [[character]]
        | line :: others => (character :: line) :: others

/-- Line feeds and carriage returns. -/
def isLineEnd (character : Char) : Bool :=
  character = '\n' || character = '\r'

/-- A line without the line feeds and carriage returns at its end. -/
def lineContents (line : List Char) : List Char :=
  (line.reverse.dropWhile isLineEnd).reverse

/-- The offset of a column in a line, both counted from zero. -/
def offsetIn : List (List Char) → (line column : Nat) → Nat
  | [], _, _ => 0
  | line :: _, 0, column => byteLength ((lineContents line).take column)
  | line :: others, before + 1, column =>
      byteLength line + offsetIn others before column

/-- The offset of a place. -/
def byteIndex (text : List Char) (place : Place) : Nat :=
  offsetIn (linesWithBreaks text) (place.line - 1) (place.column - 1)

/-- The character that begins at an offset. -/
def characterAt? : List Char → (offset : Nat) → Option Char
  | [], _ => none
  | character :: rest, offset =>
      if offset = 0 then some character
      else if character.utf8Size ≤ offset then
        characterAt? rest (offset - character.utf8Size)
      else none

/-- The character at a place, as far as it belongs to the contents of a line. -/
def spanAt (text : List Char) (place : Place) : Span :=
  let offset := byteIndex text place
  { offset
    length :=
      match characterAt? text offset with
      | some character =>
          if isLineEnd character then 0 else character.utf8Size
      | none => 0 }

end BuildGraph.Text
