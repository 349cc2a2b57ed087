import BuildGraph.Text.Search
import BuildGraph.Yaml.Root
import BuildGraph.Yaml.Tokens
import BuildGraph.Yaml.Value

namespace BuildGraph.Yaml

/-!
# Reading YAML

Some mistakes leave a text that could be read as something that was hardly meant.  They
are told by how the text looks, before it is read: two closing square brackets apart from
each other, and a comment that interrupts words in the middle of a line and of which the
next line goes on without indentation.
-/

/-- The lines of a text, each without what ends it. -/
def linesOfText : List Char → List (List Char)
  | [] => [[]]
  | '\n' :: rest => [] :: linesOfText rest
  | '\r' :: '\n' :: rest => [] :: linesOfText rest
  | character :: rest =>
      match linesOfText rest with
      | [] => [[character]]
      | line :: others => (character :: line) :: others

/-- Whether words stand in front of a comment that are neither an item nor an entry. -/
def isInterrupted (line : List Char) : Bool :=
  let words := (line.takeWhile (· ≠ '#')).dropWhile Text.isBlank
  line.contains '#' && !words.isEmpty && !words.contains ':' && words.head? ≠ some '-'

/-- Whether a line goes on in the first column with something of its own. -/
def goesOn (line : List Char) : Bool :=
  !line.head?.all Text.isBlank && line.head? ≠ some '#' &&
    !"---".toList.isPrefixOf line && !"...".toList.isPrefixOf line

/-- Whether a comment interrupts a text on some lines. -/
def hasInterruption : List (List Char) → Bool
  | line :: next :: rest =>
      isInterrupted line && goesOn next || hasInterruption (next :: rest)
  | _ => false

/-- The document that a YAML text describes, if the text keeps to the rules. -/
def read (text : String) : Option Document := do
  let characters := withoutMark text.toList
  if Text.occurs "] ]".toList characters ∨ hasInterruption (linesOfText characters) then
    failure
  match ← readRoot? (tokensOf text) with
  | some node => node.document
  | none => if Text.occurs "]]".toList characters then failure else return .null

end BuildGraph.Yaml
