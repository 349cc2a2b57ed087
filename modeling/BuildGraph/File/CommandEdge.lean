import BuildGraph.File.Declare

namespace BuildGraph

/-!
# Edges that bring their own command

The command of such an edge is kept in an override, and one rule serves all edges of the
same kind by running just that override.  Each of them depends on a phony target that is
never up to date, so it runs in every build.
-/

/-- An edge with a command of its own. -/
structure CommandEdge where
  outputs : List Fragment
  commands : Commands
  inputs : List Fragment := []
  implicit : List Fragment := []
  orderOnly : List Fragment := []
  /-- Whether the command has direct access to the terminal. -/
  console : Bool := true

/-- The variable that holds the command of an edge. -/
def commandVariable : Variable := .ofString "cmd"

/-- The rule shared by edges that bring their own command. -/
def sharedRule (console : Bool) : String :=
  if console then "console_command" else "command"

/-- The settings of the shared rule. -/
def sharedRuleOptions (console : Bool) : RuleOptions :=
  { pool := some (if console then Pool.console.name else "") }

/-- The phony target that is never up to date. -/
def alwaysOutdated : Fragment := .plain "PHONY"

namespace BuildFile

/-- Declare the shared rule, unless it is there. -/
def declareSharedRule
    (file : BuildFile)
    (console : Bool) :
    Except BuildError Unit × BuildFile :=
  if file.hasRule (sharedRule console) then
    (.ok (), file)
  else
    file.declareRule (sharedRule console) (.ofVariable commandVariable)
      (sharedRuleOptions console)

/-- Declare the phony target that is never up to date, unless it is there. -/
def declareAlwaysOutdated (file : BuildFile) : Except BuildError Unit × BuildFile :=
  if file.hasBuild alwaysOutdated then
    (.ok (), file)
  else
    file.declareEdge { outputs := [alwaysOutdated], rule := phonyRule }

/-- The edge that is declared for a command edge. -/
def edgeFor (edge : CommandEdge) : Edge where
  outputs := edge.outputs
  rule := sharedRule edge.console
  inputs := edge.inputs
  implicit := edge.implicit ++ [alwaysOutdated]
  orderOnly := edge.orderOnly
  overrides := Table.empty.insert commandVariable (.sequence edge.commands)

/-- Declare an edge with a command of its own, and what it shares with others. -/
def declareCommandEdge
    (file : BuildFile)
    (edge : CommandEdge) :
    Except BuildError Unit × BuildFile :=
  match file.declareSharedRule edge.console with
  | (.error error, later) => (.error error, later)
  | (.ok (), withRule) =>
      match withRule.declareAlwaysOutdated with
      | (.error error, later) => (.error error, later)
      | (.ok (), withTarget) => withTarget.declareEdge (edgeFor edge)

end BuildFile

end BuildGraph
