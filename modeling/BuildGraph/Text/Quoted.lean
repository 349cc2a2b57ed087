import BuildGraph.Text.Invisible

namespace BuildGraph.Text

/-!
# Text shown between quotes

Messages show a piece of text between double quotes.  Quotes, backslashes and the
common control characters are written with a backslash, characters without a shape
of their own by their code point, and everything else as itself.  A single
character is shown between single quotes by the same rules, with the two kinds of
quote exchanged.
-/

/-- The code point of a character in lowercase hexadecimal digits. -/
def hexadecimal (character : Char) : List Char :=
  Nat.toDigits 16 character.toNat

/-- One character as it is shown between quotes of the given kind. -/
def showCharacter (quote character : Char) : List Char :=
  if character = '\u0000' then ['\\', '0']
  else if character = '\t' then ['\\', 't']
  else if character = '\r' then ['\\', 'r']
  else if character = '\n' then ['\\', 'n']
  else if character = '\\' then ['\\', '\\']
  else if character = quote then ['\\', quote]
  else if isInvisible character then
    ['\\', 'u', '\x7b'] ++ hexadecimal character ++ ['\x7d']
  else [character]

/-- A piece of text between double quotes. -/
def quoted (text : String) : String :=
  String.ofList
    ('"' :: (text.toList.flatMap (showCharacter '"') ++ ['"']))

/-- A single character between single quotes. -/
def quotedCharacter (character : Char) : String :=
  String.ofList
    ('\'' :: (showCharacter '\'' character ++ ['\'']))

end BuildGraph.Text
