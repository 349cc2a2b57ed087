import BuildGraph.Json.Reader
import BuildGraph.Plan.Forms
import BuildGraph.Yaml.Reader

namespace BuildGraph.Plan

/-!
# Reading plans

A plan is read from a document field by field.  Formats differ in one point only: what a
document says about a value that should have been one of a few names.
-/

/-- The formats that plans are written in. -/
inductive Format where
  | json
  | yaml
  deriving Repr, DecidableEq

/-- Reject the kind of a document where a choice is expected. -/
def rejectChoice (format : Format) (document : Document) : Except Mismatch Choice :=
  match format, document with
  | _, .fault fault => .error (.fault fault)
  | .json, _ => .error (.fault .expectedValue)
  | .yaml, .mapping _ => .error .notSingleEntry
  | .yaml, document => rejectKind "string or map" document

/-- The choice of the given name. -/
def findChoice
    (choices : List (String × Choice))
    (name : String) :
    Except Mismatch Choice :=
  match choices.lookup name with
  | some choice => .ok choice
  | none => .error (.unknownChoice name (choices.map Prod.fst))

/-- Read a value that has to be nothing. -/
def readNothing : Reader Unit
  | .null => .ok ()
  | document => rejectKind "unit" document

/-- Read the only key of a mapping that stands for a choice. -/
def readChoiceKey : Key → Except Mismatch String
  | .name name => .ok name
  | .fault .endInMapping => .error (.fault .endInValue)
  | .fault fault => .error (.fault fault)

/-- Check that nothing follows the only entry of a mapping. -/
def checkLastEntry : List (Key × Document) → Except Mismatch Unit
  | [] => .ok ()
  | (.fault .endInMapping, _) :: _ => .error (.fault .endInMapping)
  | _ => .error (.fault .expectedValue)

/-- Read a choice by its name, or by a mapping from its name to nothing. -/
def readChoice
    (format : Format)
    (choices : List (String × Choice)) :
    Reader Choice
  | .text name => findChoice choices name
  | .mapping ((key, value) :: rest) =>
      if format = .yaml ∧ ¬ rest.isEmpty then
        .error .notSingleEntry
      else do
        let choice ← findChoice choices (← readChoiceKey key)
        readNothing value
        checkLastEntry rest
        return choice
  | document => rejectChoice format document

/-- Read a version. -/
def readVersion : Reader Version
  | .text text => (Version.read text).mapError .badVersion
  | document => rejectKind "semver version" document

/-- Read a piece of text. -/
def readPiece : Reader Piece :=
  readForm "PlanFragment" pieceForm

/-- Read pieces of text, or a single one. -/
def readPieces : Reader (OneOrMany Piece) :=
  readForm "OneOrMany" piecesForm

/-- Read a command. -/
def readCommand : Reader Command :=
  readForm "PlanCommand" commandForm

/-- Read the right-hand side of an assignment. -/
def readValue : Reader Value :=
  readForm "PlanValue" valueForm

/-- Platforms by their names. -/
def platformNames : List (String × Platform) :=
  Platform.all.map fun platform => (platform.name, platform)

/-- Groups of variables by their names. -/
def groupNames : List (String × VariableGroup) :=
  VariableGroup.all.map fun group => (group.name, group)

/-- The fields of a variable. -/
def variableFields (format : Format) : Fields VariableEntry :=
  ((((Fields.none VariableEntry.mk).required "name" readText
    ).required "value" readValue
    ).withDefault "section" (readChoice format groupNames) .other
    ).withDefault "exist_ok" readBoolean false

/-- The fields of a rule. -/
def ruleFields : Fields RuleEntry :=
  (((((((Fields.none RuleEntry.mk).required "name" readText
    ).required "command" readCommand
    ).withDefault "depfile" (readOptional readPiece) none
    ).withDefault "deps" (readOptional readText) none
    ).withDefault "generator" readBoolean false
    ).withDefault "pool" (readOptional readText) none
    ).withDefault "restat" readBoolean false

/-- The fields of an edge. -/
def edgeFields : Fields EdgeEntry :=
  ((((((Fields.none EdgeEntry.mk).required "outputs" readPieces
    ).required "rule" readText
    ).withDefault "inputs" readPieces (.many [])
    ).withDefault "implicit" readPieces (.many [])
    ).withDefault "order_only" readPieces (.many [])
    ).withDefault "variables" (readTable readValue) .empty

/-- The fields of an edge with a command of its own. -/
def commandEdgeFields : Fields CommandEdgeEntry :=
  ((((((Fields.none CommandEdgeEntry.mk).required "outputs" readPieces
    ).required "commands" readCommand
    ).withDefault "inputs" readPieces (.many [])
    ).withDefault "implicit" readPieces (.many [])
    ).withDefault "order_only" readPieces (.many [])
    ).withDefault "console" readBoolean true

/-- The fields of a plan. -/
def planFields (format : Format) : Fields Plan :=
  (((((((((Fields.none Plan.mk).required "source" readText
    ).withDefault "platform"
      (readOptional (readChoice format platformNames)) none
    ).withDefault "min_version" (readOptional readVersion) none
    ).withDefault "tools" (readTable readValue) .empty
    ).withDefault "variables" (readSequence (variableFields format).read) []
    ).withDefault "rules" (readSequence ruleFields.read) []
    ).withDefault "builds" (readSequence edgeFields.read) []
    ).withDefault "command_builds" (readSequence commandEdgeFields.read) []
    ).withDefault "defaults" (readSequence readPiece) []

/-- Read a plan from a document. -/
def ofDocument (format : Format) : Reader Plan :=
  (planFields format).read

/-- Why a text is no plan. -/
inductive Unreadable where
  /-- The text breaks the rules of its format from the outset. -/
  | malformed
  /-- The text describes something else, as far as it can be read. -/
  | mismatch (reason : Mismatch)
  deriving Repr, DecidableEq

/-- Read a plan from a JSON text. -/
def ofJson (text : String) : Except Mismatch Plan := do
  let reading := Json.read text
  let plan ← ofDocument .json reading.document
  if reading.hasMore then
    throw (.fault .trailingCharacters)
  return plan

/-- Read a plan from a YAML text. -/
def ofYaml (text : String) : Except Unreadable Plan :=
  match Yaml.read text with
  | none => .error .malformed
  | some document => (ofDocument .yaml document).mapError .mismatch

/-- Read a plan from a text in a format. -/
def ofText (format : Format) (text : String) : Except Unreadable Plan :=
  match format with
  | .json => (ofJson text).mapError .mismatch
  | .yaml => ofYaml text

end BuildGraph.Plan
