namespace BuildGraph.Shell

/-!
# Words of a shell command

A word made of safe characters stands for itself.  Any other word is put between
single quotes, where nothing is special but the single quote itself: that one is
written by closing the quotes, opening double quotes around it, and opening the
single quotes again.

Quoting has two steps, so that pieces of one word can be escaped separately and
wrapped together: `escape` prepares a piece and reports whether it needs quotes,
and `wrap` adds the quotes.
-/

/-- Characters that never need quotes. -/
def isSafe (character : Char) : Bool :=
  character.isAlphanum || "_@%+:,./-".toList.contains character

/-- A single quote inside single quotes, and any other character unchanged. -/
def escapeCharacter (character : Char) : List Char :=
  if character = '\'' then "'\"'\"'".toList else [character]

/-- A piece of text made ready for single quotes, and whether it needs them. -/
def escape (word : List Char) : List Char × Bool :=
  if word.all isSafe then
    (word, false)
  else
    (word.flatMap escapeCharacter, true)

/-- Put escaped text between single quotes when it needs them. -/
def wrap (text : List Char) (needsQuotes : Bool) : List Char :=
  if needsQuotes then '\'' :: (text ++ ['\'']) else text

/-- One word as the shell reads it back, and whether it was quoted. -/
def quoteInfo (word : List Char) : List Char × Bool :=
  let (text, needsQuotes) := escape word
  (wrap text needsQuotes, needsQuotes)

/-- One word as the shell reads it back. -/
def quote (word : List Char) : List Char :=
  (quoteInfo word).1

/-- Several words as one command line, with a single space between each two. -/
def join (words : List (List Char)) : List Char :=
  [' '].intercalate (words.map quote)

end BuildGraph.Shell
