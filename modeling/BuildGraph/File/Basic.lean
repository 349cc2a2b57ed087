import BuildGraph.Command.Basic
import BuildGraph.File.Error
import BuildGraph.Version.Basic

namespace BuildGraph

/-!
# Build files

A build file holds assignments of variables, rules, edges and default targets in the
order in which they were declared, together with the lowest version of the backend
that can read it.  Entries are only ever added.

Beside the entries it keeps the names of the declared variables and everything that is
built, which is what new declarations are compared with.
-/

/-- The group in which an assignment is written; it affects nothing but the order. -/
inductive VariableGroup where
  /-- Roots of paths. -/
  | path
  /-- Invocations of tools. -/
  | command
  /-- Flags of tools. -/
  | flags
  /-- Everything else. -/
  | other
  deriving Repr, DecidableEq

/-- Every group, in the order in which they are written. -/
def VariableGroup.all : List VariableGroup :=
  [.path, .command, .flags, .other]

/-- The name a user writes for a group. -/
def VariableGroup.name : VariableGroup → String
  | .path => "path"
  | .command => "command"
  | .flags => "flags"
  | .other => "other"

/-- An assignment of a variable. -/
structure Assignment where
  group : VariableGroup
  target : Variable
  value : Value

/-- A built-in pool that the commands of a rule may run in. -/
inductive Pool where
  /-- One command at a time, with direct access to the terminal. -/
  | console
  deriving Repr, DecidableEq

namespace Pool

/-- The name by which a build file refers to a pool. -/
def name : Pool → String
  | .console => "console"

/-- The first version of the backend that provides a pool. -/
def minimumVersion : Pool → Version
  | .console => .release 1 5 0

/-- The pool of the given name; the empty name stands for no pool. -/
def ofName (name : String) : Except BuildError (Option Pool) :=
  if name = "" then .ok none
  else if name = Pool.console.name then .ok (some .console)
  else .error (.invalidPool name)

end Pool

/-- The name of the built-in rule that runs nothing. -/
def phonyRule : String := "phony"

/-- Settings of a rule besides its name and command. -/
structure RuleOptions where
  depfile : Option Fragment := none
  deps : Option String := none
  generator : Bool := false
  pool : Option String := none
  restat : Bool := false

/-- A declared rule. -/
structure Rule where
  name : String
  command : Value
  depfile : Option Fragment
  deps : Option String
  generator : Bool
  pool : Option Pool
  restat : Bool

/-- A build statement: what is built, by which rule, and from what. -/
structure Edge where
  outputs : List Fragment
  rule : String
  inputs : List Fragment := []
  implicit : List Fragment := []
  orderOnly : List Fragment := []
  overrides : Table Variable Value := .empty

/-- Everything declared for one build file, in order of declaration. -/
structure BuildFile where
  source : String
  target : Target
  requiredVersion : Option Version
  /-- The variables that are taken. -/
  knownVariables : List Variable
  assignments : List Assignment
  rules : List Rule
  edges : List Edge
  /-- The outputs that are taken. -/
  knownOutputs : List Fragment
  defaults : List Fragment

namespace BuildFile

/-- The build file without declarations. -/
def empty (source : String) (target : Target) : BuildFile where
  source
  target
  requiredVersion := none
  knownVariables := []
  assignments := []
  rules := []
  edges := []
  knownOutputs := []
  defaults := []

/-- The assignments of one group, in order. -/
def assignmentsOf (file : BuildFile) (group : VariableGroup) : List Assignment :=
  file.assignments.filter (·.group = group)

/-- The declared variables, in order. -/
def declaredVariables (file : BuildFile) : List Variable :=
  file.assignments.map Assignment.target

/-- Whether a variable is declared. -/
def hasVariable (file : BuildFile) (var : Variable) : Bool :=
  file.knownVariables.contains var

/-- The names of the declared rules, in order. -/
def ruleNames (file : BuildFile) : List String :=
  file.rules.map Rule.name

/-- Whether a rule is declared. -/
def hasRule (file : BuildFile) (name : String) : Bool :=
  file.ruleNames.contains name

/-- Everything that the declared edges build, in order. -/
def outputs (file : BuildFile) : List Fragment :=
  file.edges.flatMap Edge.outputs

/-- Whether a declared edge builds the given output. -/
def hasBuild (file : BuildFile) (output : Fragment) : Bool :=
  file.knownOutputs.contains output

end BuildFile

end BuildGraph
