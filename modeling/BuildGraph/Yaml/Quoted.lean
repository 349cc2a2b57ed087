import BuildGraph.Number.Digits
import BuildGraph.Yaml.Pause

namespace BuildGraph.Yaml

/-!
# Quoted texts

Between single quotes only the quote itself is special, and written twice.  Between
double quotes a backslash begins an escape; in front of a line break it takes the break
away.
-/

/-- The kinds of quotes. -/
inductive Quotes where
  | single
  | double
  deriving Repr, DecidableEq

/-- The character that opens and closes a text. -/
def Quotes.character : Quotes → Char
  | .single => '\''
  | .double => '"'

/-- The character with a code point, if there is one. -/
def characterOf? (codePoint : Nat) : Option Char :=
  if codePoint.isValidChar then some (Char.ofNat codePoint) else none

/-- A character given by hexadecimal digits at the front of a text. -/
def readCodePoint (digits : Nat) (rest : List Placed) : Option (Char × Nat) := do
  let written := (rest.take digits).map Placed.character
  if written.length < digits then
    failure
  let codePoint ← Number.digitsValueIn? 16 written
  return (← characterOf? codePoint, digits + 1)

/-- The character behind a backslash, and how many characters of the text it takes. -/
def readEscape : List Placed → Option (Char × Nat)
  | [] => none
  | first :: rest =>
      match first.character with
      | '0' => some ('\u0000', 1)
      | 'a' => some ('\x07', 1)
      | 'b' => some ('\x08', 1)
      | 't' | '\t' => some ('\t', 1)
      | 'n' => some ('\n', 1)
      | 'v' => some ('\x0b', 1)
      | 'f' => some ('\x0c', 1)
      | 'r' => some ('\r', 1)
      | 'e' => some ('\x1b', 1)
      | ' ' => some (' ', 1)
      | '"' => some ('"', 1)
      | '/' => some ('/', 1)
      | '\\' => some ('\\', 1)
      | 'N' => some ('\u0085', 1)
      | '_' => some ('\u00a0', 1)
      | 'L' => some ('\u2028', 1)
      | 'P' => some ('\u2029', 1)
      | 'x' => readCodePoint 2 rest
      | 'u' => readCodePoint 4 rest
      | 'U' => readCodePoint 8 rest
      | _ => none

/-- Put text in front of a text that has been read. -/
def withFront
    (front : List Char)
    (read : Option (List Char × List Placed)) :
    Option (List Char × List Placed) :=
  read.map fun (text, rest) => (front ++ text, rest)

/--
The text up to the closing quote, and what stands behind the quote.

A line may not begin to the left of the margin by more than one column, nor be indented
there by a tab; only a quote directly behind a line break that has been taken away may
stand anywhere.  The number counts the characters that have been taken already.
-/
def readQuoted
    (quotes : Quotes)
    (margin : Nat) :
    Nat → Pause → List Placed → Option (List Char × List Placed)
  | _, _, [] => none
  | taken + 1, pause, _ :: rest => readQuoted quotes margin taken pause rest
  | 0, pause, first :: rest =>
      if first.character = '\n' then
        readQuoted quotes margin 0 pause.addBreak rest
      else if isSpace first.character then
        if pause.isBetweenLines ∧ first.character = '\t' ∧ first.column + 1 < margin then
          none
        else
          readQuoted quotes margin 0 (pause.addSpace first.character) rest
      else if first.character = quotes.character ∧ pause = .joint 0 ∧ first.column = 0 then
        some ([], rest)
      else if first.character = '\u0000' ∨
          first.column = 0 ∧ (marker? (first :: rest)).isSome ∨
          first.column + 1 < margin then
        none
      else if first.character = quotes.character then
        if quotes = .single ∧ beginsWith '\'' rest then
          withFront (pause.text ++ ['\''])
            (readQuoted quotes margin 1 (.spaces []) rest)
        else
          some (pause.text, rest)
      else if quotes = .double ∧ first.character = '\\' then
        if beginsWith '\n' rest then
          withFront pause.text (readQuoted quotes margin 1 (.joint 0) rest)
        else
          match readEscape rest with
          | none => none
          | some (character, length) =>
              withFront (pause.text ++ [character])
                (readQuoted quotes margin length (.spaces []) rest)
      else
        withFront (pause.text ++ [first.character])
          (readQuoted quotes margin 0 (.spaces []) rest)

/--
Whether what follows a quoted text may follow it.

The line has to end there, or a colon has to follow; in brackets a comma or a closing
bracket may come as well.  Outside brackets a colon only follows a text on one line.
-/
def endsQuoted (inBrackets isOnOneLine : Bool) (rest : List Placed) : Bool :=
  endsLine rest ||
    beginsWith ':' rest && (inBrackets || isOnOneLine) ||
    inBrackets && beginsIn (fun character => ",]\x7d".toList.contains character) rest

end BuildGraph.Yaml
