import BuildGraph.Text.SingleLine

namespace BuildGraph.Ninja

/-!
# Escaping for a build file

In a build file `$` starts a variable reference, a space separates names and a colon
ends the outputs of an edge.  A `$` in front of such a character makes it ordinary.
Which characters need it depends on the position of the text.
-/

/-- Where in a build file a piece of text stands. -/
inductive Position where
  /-- Among the outputs of an edge. -/
  | output
  /-- Among the inputs of an edge, or among the default targets. -/
  | input
  /-- In a value that a shell may read. -/
  | shell
  /-- In a value that is spliced into other paths and never quoted for a shell. -/
  | clean
  deriving Repr, DecidableEq

/-- How plain text is quoted where a shell reads it. -/
inductive Quoting where
  /-- Every piece that needs quotes gets them. -/
  | quote
  /-- Pieces are made ready for quotes, which the caller adds. -/
  | escape
  /-- Text stays as it is. -/
  | never
  deriving Repr, DecidableEq

/-- Characters that need a `$` in front of them. -/
def isSpecial (position : Position) (character : Char) : Bool :=
  match position with
  | .output => character = '$' || character = ':' || character = ' '
  | .input => character = '$' || character = ' '
  | .shell | .clean => character = '$'

/-- Text with a `$` in front of every special character. -/
def escapeText (position : Position) (text : List Char) : List Char :=
  text.flatMap fun character =>
    if isSpecial position character then ['$', character] else [character]

/-- Escape text that stays on one line, and reject any other. -/
def escape
    (position : Position)
    (text : List Char) :
    Except Text.IllegalNewline (List Char) :=
  (Text.checkSingleLine text).map fun _ => escapeText position text

end BuildGraph.Ninja
