import BuildGraph.Number.Digits
import BuildGraph.Text.Blank
import BuildGraph.Text.Place
import BuildGraph.Text.Search

namespace BuildGraph.Plan

/-!
# Explaining texts that are no plans

A text that cannot be read is reported under the name of its plan.  A problem of syntax
points at its place in the text and gives advice on common mistakes; a problem of
structure tells what was found where something else was expected.
-/

/-- A problem of syntax, and where it is when that is known. -/
structure SyntaxProblem where
  description : String
  place : Option Text.Place

namespace SyntaxProblem

/-- A place as a message writes it. -/
def placeText (place : Text.Place) : String :=
  "line " ++ toString place.line ++ ", column " ++ toString place.column

/-- The problem with its place. -/
def text (problem : SyntaxProblem) : String :=
  match problem.place with
  | some place => problem.description ++ " at " ++ placeText place
  | none => problem.description

/-- The whole message; a problem without a place is reported at the beginning. -/
def message (problem : SyntaxProblem) : String :=
  "YAML parse error at " ++
    placeText (problem.place.getD { line := 1, column := 1 }) ++ ": " ++ problem.text

/-- The part of the text that the problem points at. -/
def span? (problem : SyntaxProblem) (source : String) : Option Text.Span :=
  problem.place.map (Text.spanAt source.toList)

/-- Whether the line of a place is indented with a tab. -/
def isTabIndented (source : String) (place : Text.Place) : Bool :=
  match (Text.linesWithBreaks source.toList)[place.line - 1]? with
  | some line => (line.takeWhile Text.isBlank).contains '\t'
  | none => false

/-- The lower-case form of a character, as far as it is an ASCII letter. -/
def lowerCase (character : Char) : Char :=
  if character = '\u212a' then 'k' else character.toLower

/-- Advice by what a lower-case message contains. -/
def adviceTable : List (String × String) :=
  [("did not find expected '-'",
      "Start list items with '-' and ensure proper indentation."),
    ("mapping values are not allowed",
      "Check for a stray ':' or add quotes around values where needed."),
    ("found character that cannot start any token",
      "Quote values that begin with characters such as '@' or '\x60'.")]

/-- Advice on how to mend the text. -/
def help (problem : SyntaxProblem) (source : String) : Option String :=
  if problem.place.any (isTabIndented source) then
    some "Use spaces for indentation; tabs are invalid in YAML."
  else
    let lower := problem.text.toList.map lowerCase
    (adviceTable.find? fun entry => Text.occurs entry.1.toList lower).map Prod.snd

/-- The code under which the error is documented. -/
def code : String := "ninja_synth::plan::yaml"

/-- What stands at the part of the text that the problem points at. -/
def label : String := "parse error here"

end SyntaxProblem

/-- A problem of structure, in words that may end with its place. -/
structure StructureProblem where
  reason : String

/-- Read the digits of a number of at most 64 bits at the front of a text. -/
def readCount? (text : List Char) : Option (Nat × List Char) :=
  let digits := text.takeWhile Char.isDigit
  let count := Number.digitsValue digits
  if digits.isEmpty ∨ Number.twoTo 64 ≤ count then
    none
  else
    some (count, text.dropWhile Char.isDigit)

/-- The place that a text consists of. -/
def readPlace? (text : List Char) : Option Text.Place := do
  let (line, text) ← readCount? (← Text.withoutFront? " at line ".toList text)
  let (column, text) ← readCount? (← Text.withoutFront? " column ".toList text)
  if text.isEmpty then
    return { line, column }
  else
    failure

/-- A description in front of its place, and the place at its end. -/
def splitPlace? : List Char → Option (List Char × Text.Place)
  | [] => none
  | character :: rest =>
      match splitPlace? rest with
      | some (description, place) => some (character :: description, place)
      | none => (readPlace? (character :: rest)).map fun place => ([], place)

namespace StructureProblem

/-- The problem, where a place on a line that cannot be is left out. -/
def text (problem : StructureProblem) : String :=
  match splitPlace? problem.reason.toList with
  | none => problem.reason
  | some (description, place) =>
      if place.line = 0 then
        String.ofList description
      else
        String.ofList description ++ " at line " ++ toString place.line ++ " column " ++
          toString place.column

/-- The whole message about the plan of the given name. -/
def message (problem : StructureProblem) (name : String) : String :=
  "plan " ++ name ++ " does not match the expected structure: " ++ problem.text

/-- The code under which the error is documented. -/
def code : String := "ninja_synth::plan::structure"

end StructureProblem

/-- What is said about a plan that cannot be read. -/
def unreadable (name : String) : String :=
  "failed to parse build plan " ++ name

/-- The code under which plans that cannot be read are documented. -/
def unreadableCode : String := "ninja_synth::plan::parse"

end BuildGraph.Plan
