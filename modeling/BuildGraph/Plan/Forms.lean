import BuildGraph.Plan.Basic
import BuildGraph.Plan.Fields

namespace BuildGraph.Plan

/-!
# Forms of the nodes of a plan

Most nodes of a plan can be written in several forms: a bare text, a bare list, or a
mapping with a telling key.  The forms are tried in a fixed order, and the first one that
fits is taken.

A mapping read as a piece of text may hold other keys besides those of its form.  A tool,
a shell list and a command sequence hold their own keys only.
-/

/-- The name under which a key stands, if it is a proper one. -/
def keyName? : Key → Option String
  | .name name => some name
  | _ => none

/-- The values under a name, in order. -/
def valuesOf (name : String) (entries : List (Key × Document)) : List Document :=
  (entries.filter fun entry => keyName? entry.1 = some name).map Prod.snd

/-- The value under a name that occurs exactly once. -/
def onlyValue? (name : String) (entries : List (Key × Document)) : Option Document :=
  match valuesOf name entries with
  | [value] => some value
  | _ => none

/-- A text. -/
def textForm : Document → Option String
  | .text value => some value
  | _ => none

/-- A mapping's text under a name that occurs exactly once. -/
def onlyText? (name : String) (entries : List (Key × Document)) : Option String :=
  (onlyValue? name entries).bind textForm

/-- Every root by the name a plan gives it. -/
def rootNames : List (String × Root) :=
  [("builddir", .buildTree), ("srcdir", .sourceTree), ("absolute", .absolute),
    ("prefix", .install .base), ("exec_prefix", .install .executableBase),
    ("bindir", .install .executables), ("libdir", .install .libraries),
    ("includedir", .install .headers)]

/-- A choice by its name, or by a mapping from its name to nothing. -/
def choiceForm (choices : List (String × Choice)) : Document → Option Choice
  | .text name => choices.lookup name
  | .mapping [(.name name, .null)] => choices.lookup name
  | _ => none

/-- A truth value. -/
def booleanForm : Document → Option Bool
  | .boolean truth => some truth
  | _ => none

/-- A value under a name that occurs at most once, with a default. -/
def valueOrDefault?
    (name : String)
    (form : Document → Option Result)
    (default : Result)
    (entries : List (Key × Document)) :
    Option Result :=
  match valuesOf name entries with
  | [] => some default
  | [value] => form value
  | _ => none

/-- A symbolic path. -/
def pathForm (entries : List (Key × Document)) : Option Piece := do
  let suffix ← onlyText? "path" entries
  let root ← valueOrDefault? "root" (choiceForm rootNames) .buildTree entries
  let isDirectory ← valueOrDefault? "directory" booleanForm false entries
  return .path suffix root isDirectory

mutual

/-- A piece of text. -/
def pieceForm : Document → Option Piece
  | .text value => some (.text value)
  | .mapping entries =>
      (onlyText? "literal" entries).map .literal
        <|> (onlyText? "shell" entries).map .shell
        <|> (onlyText? "var" entries).map .reference
        <|> pathForm entries
        <|> (concatForm entries).map .concat
  | _ => none

/-- Pieces in a sequence. -/
def pieceListForm : Document → Option (List Piece)
  | .sequence items => pieceForms items
  | _ => none

/-- Pieces, one after the other. -/
def pieceForms : List Document → Option (List Piece)
  | [] => some []
  | item :: rest => do
      let first ← pieceForm item
      let others ← pieceForms rest
      return first :: others

/-- The parts of a concatenation, under a key that occurs exactly once. -/
def concatForm : List (Key × Document) → Option (List Piece)
  | [] => none
  | (key, value) :: rest =>
      if keyName? key = some "concat" then
        if valuesOf "concat" rest = [] then pieceListForm value else none
      else
        concatForm rest

end

/-- A tool by its name. -/
def toolForm : Document → Option String
  | .mapping [(.name "tool", .text name)] => some name
  | _ => none

/-- One argument. -/
def argumentForm (document : Document) : Option Argument :=
  (toolForm document).map .tool <|> (pieceForm document).map .piece

/-- Arguments in a sequence. -/
def argumentListForm : Document → Option (List Argument)
  | .sequence items => items.mapM argumentForm
  | _ => none

/-- Arguments with shell operators among them. -/
def shellListForm : Document → Option (List Argument)
  | .mapping [(.name "shell_list", value)] => argumentListForm value
  | _ => none

/-- Environment bindings; a repeated name takes its last value. -/
def environmentForm : Document → Option (Table String Piece)
  | .mapping entries => do
      let bindings ← entries.mapM fun (key, value) => do
        return (← keyName? key, ← pieceForm value)
      return Table.ofList bindings
  | _ => none

/-- The parts of a command sequence found so far. -/
structure SequenceParts where
  lines : Option (List Line) := none
  environment : Option (Table String Piece) := none

/-- The command sequence that parts make up; it has to have lines. -/
def SequenceParts.sequence? (parts : SequenceParts) : Option Sequence :=
  parts.lines.map fun lines => .mk lines (parts.environment.getD .empty)

mutual

/-- One line of a command. -/
def lineForm : Document → Option Line
  | .sequence items => (items.mapM argumentForm).map .arguments
  | .mapping entries =>
      (shellListForm (.mapping entries)).map .shellList
        <|> (sequenceParts entries {}).bind
          (fun parts => parts.sequence?.map .nested)
        <|> (pieceForm (.mapping entries)).map .script
  | document => (pieceForm document).map .script

/-- Lines in a sequence. -/
def lineListForm : Document → Option (List Line)
  | .sequence items => lineForms items
  | _ => none

/-- Lines, one after the other. -/
def lineForms : List Document → Option (List Line)
  | [] => some []
  | item :: rest => do
      let first ← lineForm item
      let others ← lineForms rest
      return first :: others

/-- The parts of a command sequence, each of which occurs at most once. -/
def sequenceParts : List (Key × Document) → SequenceParts → Option SequenceParts
  | [], parts => some parts
  | (key, value) :: rest, parts =>
      if keyName? key = some "commands" ∧ parts.lines.isNone then do
        let lines ← lineListForm value
        sequenceParts rest { parts with lines := some lines }
      else if keyName? key = some "env" ∧ parts.environment.isNone then do
        let environment ← environmentForm value
        sequenceParts rest { parts with environment := some environment }
      else
        none

end

/-- A command sequence. -/
def sequenceForm : Document → Option Sequence
  | .mapping entries => (sequenceParts entries {}).bind SequenceParts.sequence?
  | _ => none

/-- The command of a rule or an edge. -/
def commandForm (document : Document) : Option Command :=
  (sequenceForm document).map .sequence <|> (lineForm document).map .line

/-- The right-hand side of an assignment. -/
def valueForm (document : Document) : Option Value :=
  (sequenceForm document).map .sequence
    <|> (argumentListForm document).map .words
    <|> (pieceForm document).map .piece

/-- Pieces in a sequence, or a single piece. -/
def piecesForm (document : Document) : Option (OneOrMany Piece) :=
  (pieceListForm document).map .many <|> (pieceForm document).map .one

end BuildGraph.Plan
