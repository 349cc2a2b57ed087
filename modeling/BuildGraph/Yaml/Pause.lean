import BuildGraph.Yaml.Layout

namespace BuildGraph.Yaml

/-!
# Pauses in a text of several lines

A text that goes on over several lines is folded: a line break between two words stands
for a space, and every further one for itself.  The spaces around line breaks do not
count.
-/

/-- What separates two words. -/
inductive Pause where
  /-- Spaces on one line, or nothing. -/
  | spaces (found : List Char)
  /-- A line break and some further ones. -/
  | breaks (further : Nat)
  /-- A line break that has been taken away, and some further ones. -/
  | joint (further : Nat)
  deriving Repr, DecidableEq

namespace Pause

/-- The text that a pause stands for. -/
def text : Pause → List Char
  | .spaces found => found
  | .breaks 0 => [' ']
  | .breaks further => List.replicate further '\n'
  | .joint further => List.replicate further '\n'

/-- A pause with one more space. -/
def addSpace (pause : Pause) (space : Char) : Pause :=
  match pause with
  | .spaces found => .spaces (found ++ [space])
  | pause => pause

/-- A pause with one more line break. -/
def addBreak : Pause → Pause
  | .spaces _ => .breaks 0
  | .breaks further => .breaks (further + 1)
  | .joint further => .joint (further + 1)

/-- Whether a pause reaches over the end of a line. -/
def isBetweenLines : Pause → Bool
  | .spaces _ => false
  | _ => true

end Pause

end BuildGraph.Yaml
