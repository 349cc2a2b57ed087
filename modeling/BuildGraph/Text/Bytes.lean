namespace BuildGraph.Text

/-!
# Text as bytes

A text is stored as one to four bytes for each of its characters.
-/

/-- How many bytes a text takes. -/
def byteLength : List Char → Nat
  | [] => 0
  | character :: rest => character.utf8Size + byteLength rest

/-- The bytes of a text. -/
def encode (text : List Char) : List UInt8 :=
  text.flatMap String.utf8EncodeChar

/-- The longest part at the front of a text that fits into a number of bytes. -/
def fitting : Nat → List Char → List Char
  | _, [] => []
  | room, character :: rest =>
      if character.utf8Size ≤ room then
        character :: fitting (room - character.utf8Size) rest
      else
        []

/-- A text has as many bytes as its length says. -/
theorem length_encode
    (text : List Char) :
    (encode text).length = byteLength text := by
  induction text with
  | nil =>
      rfl
  | cons character rest inductionHypothesis =>
      simp only [encode, List.flatMap_cons, List.length_append,
        String.length_utf8EncodeChar, byteLength]
      exact congrArg (character.utf8Size + ·) inductionHypothesis

end BuildGraph.Text
