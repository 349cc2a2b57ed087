import BuildGraph.File.CommandEdge
import BuildGraph.Plan.Basic

namespace BuildGraph.Plan

/-!
# Declaring what a plan lists

Applying a plan declares its entries one after the other in a fresh build file.  The
first entry that is rejected ends this, and the rejection names the entry and the reason.

A tool stands for the value that the plan's table gives for its name.  That value may
refer to no further tools.
-/

/-- Why an entry of a plan was rejected. -/
inductive Cause where
  | build (error : BuildError)
  | unknownTool (name : String)
  deriving Repr, DecidableEq

/-- What is wrong with the entry, for a reader. -/
def Cause.message : Cause → String
  | .build error => error.message
  | .unknownTool name => "unknown tool " ++ Text.quoted name

/-- What was being done with an entry. -/
inductive Step where
  | resolveVariable (name : String)
  | declareVariable (name : String)
  | resolveRule (name : String)
  | declareRule (name : String)
  | resolveEdge (rule : String)
  | declareEdge (outputs : List Fragment)
  | declareCommandEdge (outputs : List Fragment)
  | addDefaults
  deriving DecidableEq

/-- Outputs as a message lists them. -/
def listOutputs (outputs : List Fragment) : String :=
  " ".intercalate (outputs.map Fragment.display)

/-- What was being done, for a reader. -/
def Step.message : Step → String
  | .resolveVariable name => "in variable " ++ name
  | .declareVariable name => "failed to declare variable " ++ name
  | .resolveRule name => "in rule " ++ name
  | .declareRule name => "failed to declare rule " ++ name
  | .resolveEdge rule => "in build for rule " ++ rule
  | .declareEdge outputs => "failed to declare build " ++ listOutputs outputs
  | .declareCommandEdge outputs =>
      "failed to declare command build " ++ listOutputs outputs
  | .addDefaults => "failed to declare default targets"

/-- A rejected entry: what was being done with it, and why it failed. -/
structure Rejection where
  step : Option Step
  cause : Cause
  deriving DecidableEq

/-- What is said about a rejected entry, from the outside in. -/
def Rejection.chain (rejection : Rejection) : List String :=
  (rejection.step.map Step.message).toList ++ [rejection.cause.message]

mutual

/-- A piece as a fragment; paths below installation directories are staged. -/
def Piece.fragment : Piece → Fragment
  | .text content => .plain content
  | .literal content => .literal content
  | .shell content => .shellLiteral content
  | .reference name => (Variable.ofString name).use
  | .path suffix root isDirectory =>
      let place :=
        match root with
        | .install installRoot => Path.installed installRoot suffix
        | root => Path.below root suffix
      .path (if isDirectory then place.asDirectory else place)
  | .concat parts => Fragment.append (Piece.fragments parts)

/-- Pieces as fragments. -/
def Piece.fragments : List Piece → List Fragment
  | [] => []
  | piece :: rest => piece.fragment :: Piece.fragments rest

end

/-- The fragments of pieces, or of a single piece. -/
def OneOrMany.fragments (pieces : OneOrMany Piece) : List Fragment :=
  Piece.fragments pieces.toList

/-- How the name of a tool is looked up. -/
abbrev Lookup := String → Except Cause BuildGraph.Value

/-- The look-up that knows no tool. -/
def noTools : Lookup :=
  fun name => .error (.unknownTool name)

/-- Resolve one argument. -/
def Argument.resolve (tools : Lookup) : Argument → Except Cause BuildGraph.Argument
  | .piece content => .ok (.text content.fragment)
  | .tool name => (tools name).map (.tool name)

mutual

/-- Resolve one line of a command. -/
def Line.resolve (tools : Lookup) : Line → Except Cause BuildGraph.Line
  | .arguments arguments =>
      .arguments <$> arguments.mapM (Argument.resolve tools)
  | .shellList arguments =>
      .shellList <$> arguments.mapM (Argument.resolve tools)
  | .nested sequence => .nested <$> sequence.resolve tools
  | .script script => .ok (.script script.fragment)

/-- Resolve lines one after the other. -/
def Line.resolveAll
    (tools : Lookup) :
    List Line →
    Except Cause (List BuildGraph.Line)
  | [] => .ok []
  | line :: rest => do
      let first ← line.resolve tools
      let others ← Line.resolveAll tools rest
      return first :: others

/-- Resolve a command sequence, which has to have lines. -/
def Sequence.resolve (tools : Lookup) : Sequence → Except Cause Commands
  | .mk lines environment => do
      match ← Line.resolveAll tools lines with
      | [] => throw (.build .emptyCommand)
      | first :: rest =>
          return .mk (environment.mapValues Piece.fragment) first rest

end

/-- Resolve a command. -/
def Command.resolve (tools : Lookup) : Command → Except Cause Commands
  | .sequence lines => lines.resolve tools
  | .line single => Commands.single <$> single.resolve tools

/-- Resolve the right-hand side of an assignment. -/
def Value.resolve (tools : Lookup) : Value → Except Cause BuildGraph.Value
  | .sequence lines => .sequence <$> lines.resolve tools
  | .words arguments => .words <$> arguments.mapM (Argument.resolve tools)
  | .piece content => .ok (.text content.fragment)

/-- The look-up in a table of tools. -/
def lookupIn (table : Table String Value) : Lookup :=
  fun name =>
    match table.find? name with
    | some value => value.resolve noTools
    | none => .error (.unknownTool name)

/-- The settings of a rule. -/
def RuleEntry.options (entry : RuleEntry) : RuleOptions where
  depfile := entry.depfile.map Piece.fragment
  deps := entry.deps
  generator := entry.generator
  pool := entry.pool
  restat := entry.restat

/-- Resolve overrides; of two names for the same variable the last value counts. -/
def resolveOverrides
    (tools : Lookup)
    (overrides : Table String Value) :
    Except Cause (Table Variable BuildGraph.Value) := do
  let entries ← overrides.entries.mapM fun (name, value) => do
    return (Variable.ofString name, ← value.resolve tools)
  return Table.ofList entries

/-- Resolve an edge. -/
def EdgeEntry.resolve (tools : Lookup) (entry : EdgeEntry) : Except Cause Edge := do
  let overrides ← resolveOverrides tools entry.overrides
  return {
    outputs := entry.outputs.fragments
    rule := entry.rule
    inputs := entry.inputs.fragments
    implicit := entry.implicit.fragments
    orderOnly := entry.orderOnly.fragments
    overrides }

/-- Resolve an edge with a command of its own. -/
def CommandEdgeEntry.resolve
    (tools : Lookup)
    (entry : CommandEdgeEntry) :
    Except Cause CommandEdge := do
  let commands ← entry.command.resolve tools
  return {
    outputs := entry.outputs.fragments
    commands
    inputs := entry.inputs.fragments
    implicit := entry.implicit.fragments
    orderOnly := entry.orderOnly.fragments
    console := entry.console }

/-- The result of resolving, or the rejection of the entry. -/
def resolved
    (step : Option Step)
    (outcome : Except Cause Result) :
    Except Rejection Result :=
  outcome.mapError fun cause => { step, cause }

/-- The file after a declaration, or the rejection of the entry. -/
def declared
    (step : Step)
    (outcome : Except BuildError Result × BuildFile) :
    Except Rejection BuildFile :=
  match outcome with
  | (.ok _, file) => .ok file
  | (.error error, _) => .error { step := some step, cause := .build error }

/-- Declare a variable of a plan. -/
def applyVariable
    (tools : Lookup)
    (file : BuildFile)
    (entry : VariableEntry) :
    Except Rejection BuildFile := do
  let value ←
    resolved (some (.resolveVariable entry.name)) (entry.value.resolve tools)
  declared (.declareVariable entry.name)
    (file.declareVariable (.ofString entry.name) value entry.group
      entry.acceptExisting)

/-- Declare a rule of a plan. -/
def applyRule
    (tools : Lookup)
    (file : BuildFile)
    (entry : RuleEntry) :
    Except Rejection BuildFile := do
  let command ←
    resolved (some (.resolveRule entry.name)) (entry.command.resolve tools)
  declared (.declareRule entry.name)
    (file.declareRule entry.name command entry.options)

/-- Declare an edge of a plan. -/
def applyEdge
    (tools : Lookup)
    (file : BuildFile)
    (entry : EdgeEntry) :
    Except Rejection BuildFile := do
  let edge ← resolved (some (.resolveEdge entry.rule)) (entry.resolve tools)
  declared (.declareEdge edge.outputs) (file.declareEdge edge)

/-- Declare an edge of a plan that has a command of its own. -/
def applyCommandEdge
    (tools : Lookup)
    (file : BuildFile)
    (entry : CommandEdgeEntry) :
    Except Rejection BuildFile := do
  let edge ← resolved none (entry.resolve tools)
  declared (.declareCommandEdge edge.outputs) (file.declareCommandEdge edge)

/-- The platform of a plan: the caller's choice, else the plan's own, else the host. -/
def targetPlatform (plan : Plan) (choice : Option Platform) : Platform :=
  (choice <|> plan.platform).getD .host

/-- The file that a plan starts from, with the version it requires. -/
def startFile (plan : Plan) (choice : Option Platform) : BuildFile :=
  let file :=
    BuildFile.empty plan.source (.forPlatform (plan.targetPlatform choice))
  match plan.minimumVersion with
  | some version => file.requireVersion version
  | none => file

/-- The build file that a plan describes, or its first entry that is rejected. -/
def buildFile (plan : Plan) (choice : Option Platform) : Except Rejection BuildFile := do
  let tools := lookupIn plan.tools
  let withVariables ←
    plan.variableEntries.foldlM (applyVariable tools) (plan.startFile choice)
  let withRules ← plan.rules.foldlM (applyRule tools) withVariables
  let withEdges ← plan.edges.foldlM (applyEdge tools) withRules
  let withCommandEdges ←
    plan.commandEdges.foldlM (applyCommandEdge tools) withEdges
  declared .addDefaults
    (withCommandEdges.addDefaults (Piece.fragments plan.defaults))

end BuildGraph.Plan
