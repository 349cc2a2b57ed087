namespace BuildGraph.Text

/-!
# Searching in a text
-/

/-- Whether a text contains another one. -/
def occurs (wanted : List Char) : List Char → Bool
  | [] => wanted.isEmpty
  | character :: rest =>
      wanted.isPrefixOf (character :: rest) || occurs wanted rest

/-- A text without another one in front of it. -/
def withoutFront? (front text : List Char) : Option (List Char) :=
  if front.isPrefixOf text then some (text.drop front.length) else none

end BuildGraph.Text
