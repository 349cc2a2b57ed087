namespace BuildGraph.Shell

/-!
# Splitting a command line into words

Words are separated by spaces, tabs and line breaks.  A comment starts where a word
could start and runs to the end of its line.  Quoted parts join the word around
them, and a backslash makes the next character ordinary or, before a line break,
disappears together with it.  Between double quotes a backslash is special only
before `$`, a backquote, a double quote, a backslash and a line break.

The reader walks over the characters once and keeps only the mode it is in.
-/

/-- Where in a command line the reader stands. -/
inductive Mode where
  | betweenWords
  | comment
  | inWord
  | afterBackslash
  | singleQuotes
  | doubleQuotes
  | backslashInDoubleQuotes
  deriving Repr, DecidableEq

/-- Characters that end a word. -/
def isBlank (character : Char) : Bool :=
  character = ' ' || character = '\t' || character = '\n'

/-- Characters that a backslash makes ordinary between double quotes. -/
def isSpecialInDoubleQuotes (character : Char) : Bool :=
  character = '$' || character = '\x60' || character = '"' || character = '\\'

/-- Put a character in front of the word that was being read. -/
def extendWord
    (character : Char)
    (words : Option (List (List Char))) :
    Option (List (List Char)) :=
  words.map fun
    | [] => [[character]]
    | word :: rest => (character :: word) :: rest

/--
The words that remain to be read in a mode.

Inside a word the first word of the result is the part of it that is still to come.
A backslash at the very end and quotes that stay open give nothing.
-/
def scan : Mode → List Char → Option (List (List Char))
  | .betweenWords, [] => some []
  | .betweenWords, character :: rest =>
      if isBlank character then scan .betweenWords rest
      else if character = '#' then scan .comment rest
      else if character = '\'' then scan .singleQuotes rest
      else if character = '"' then scan .doubleQuotes rest
      else if character = '\\' then scan .afterBackslash rest
      else extendWord character (scan .inWord rest)
  | .comment, [] => some []
  | .comment, character :: rest =>
      if character = '\n' then scan .betweenWords rest
      else scan .comment rest
  | .inWord, [] => some [[]]
  | .inWord, character :: rest =>
      if isBlank character then (scan .betweenWords rest).map ([] :: ·)
      else if character = '\'' then scan .singleQuotes rest
      else if character = '"' then scan .doubleQuotes rest
      else if character = '\\' then scan .afterBackslash rest
      else extendWord character (scan .inWord rest)
  | .afterBackslash, [] => none
  | .afterBackslash, character :: rest =>
      if character = '\n' then scan .inWord rest
      else extendWord character (scan .inWord rest)
  | .singleQuotes, [] => none
  | .singleQuotes, character :: rest =>
      if character = '\'' then scan .inWord rest
      else extendWord character (scan .singleQuotes rest)
  | .doubleQuotes, [] => none
  | .doubleQuotes, character :: rest =>
      if character = '"' then scan .inWord rest
      else if character = '\\' then scan .backslashInDoubleQuotes rest
      else extendWord character (scan .doubleQuotes rest)
  | .backslashInDoubleQuotes, [] => none
  | .backslashInDoubleQuotes, character :: rest =>
      if isSpecialInDoubleQuotes character then
        extendWord character (scan .doubleQuotes rest)
      else if character = '\n' then scan .doubleQuotes rest
      else extendWord '\\' (extendWord character (scan .doubleQuotes rest))

/-- The words of a command line, or nothing when its quotes do not balance. -/
def split (command : List Char) : Option (List (List Char)) :=
  scan .betweenWords command

end BuildGraph.Shell
