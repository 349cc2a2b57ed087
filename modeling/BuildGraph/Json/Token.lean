import BuildGraph.Json.Number
import BuildGraph.Json.Text

namespace BuildGraph.Json

/-!
# Tokens of JSON

A text is first cut into tokens.  A token that is broken ends the reading where it is
needed, so the cut never fails.
-/

/-- A token. -/
inductive Token where
  | openSequence
  | closeSequence
  | openMapping
  | closeMapping
  | colon
  | comma
  /-- A literal, a number or a text. -/
  | scalar (value : Document)
  /-- Something that begins like a text and is none. -/
  | brokenText (fault : Fault)
  /-- Something that begins like nothing, or else like a literal or a number, and is none. -/
  | broken (isNull : Bool) (fault : Fault)
  /-- A character that begins no token. -/
  | stray

/-- Characters between tokens. -/
def isBlank (character : Char) : Bool :=
  character = ' ' || character = '\n' || character = '\t' || character = '\r'

/-- Check that a text goes on with the rest of a keyword. -/
def readKeyword : List Char → List Char → Except Fault Unit
  | [], _ => .ok ()
  | _ :: _, [] => .error .endInValue
  | expected :: keyword, character :: rest =>
      if character = expected then
        readKeyword keyword rest
      else
        .error .expectedKeyword

/-- A literal, by the rest of its keyword. -/
def literalToken
    (keyword : String)
    (value : Document)
    (rest : List Char) :
    Token × Nat :=
  match readKeyword keyword.toList rest with
  | .ok () => (.scalar value, keyword.length)
  | .error fault => (.broken value.isNull fault, 0)

/-- The number that a text begins with. -/
def numberToken (text : List Char) : Token × Nat :=
  match readNumber text with
  | .ok (number, rest) => (.scalar number, text.length - rest.length - 1)
  | .error fault => (.broken false fault, 0)

/-- The token that begins with a character, and how much of the rest it takes. -/
def readToken (character : Char) (rest : List Char) : Token × Nat :=
  match character with
  | '[' => (.openSequence, 0)
  | ']' => (.closeSequence, 0)
  | '\x7b' => (.openMapping, 0)
  | '\x7d' => (.closeMapping, 0)
  | ':' => (.colon, 0)
  | ',' => (.comma, 0)
  | 'n' => literalToken "ull" .null rest
  | 't' => literalToken "rue" (.boolean true) rest
  | 'f' => literalToken "alse" (.boolean false) rest
  | '"' =>
      match readText 0 rest with
      | .ok (text, taken) => (.scalar (.text (String.ofList text)), taken)
      | .error fault => (.brokenText fault, 0)
  | character =>
      if character = '-' ∨ character.isDigit then
        numberToken (character :: rest)
      else
        (.stray, 0)

/--
The tokens of a text.

The first argument counts the characters that the last token has taken already.
-/
def tokens : Nat → List Char → List Token
  | _, [] => []
  | taken + 1, _ :: rest => tokens taken rest
  | 0, character :: rest =>
      if isBlank character then
        tokens 0 rest
      else
        let (token, taken) := readToken character rest
        token :: tokens taken rest

end BuildGraph.Json
