import BuildGraph.Command.Tools
import BuildGraph.File.Basic

namespace BuildGraph

/-!
# Declaring entries of a build file

Each declaration yields its result or the reason why it was rejected, together with the
file afterwards.  A declaration is checked as a whole before anything is added, so a
rejected one leaves the file as it was.

Tools in the command of a rule and in the overrides of an edge are interned: the first
tool of a name is declared as a variable of the command group, and the reference to that
variable takes the place of every tool of the same name.
-/

/-- Report a line break as the mistake of a declaration. -/
def BuildError.ofLineCheck
    (checked : Except Text.IllegalNewline Unit) :
    Except BuildError Unit :=
  checked.mapError BuildError.illegalNewline

/-- Check an item for line breaks where there is one. -/
def BuildError.checkOptional
    (check : Item → Except Text.IllegalNewline Unit) :
    Option Item →
    Except BuildError Unit
  | none => .ok ()
  | some item => ofLineCheck (check item)

namespace BuildFile

/-- Require at least the given version of the backend. -/
def requireVersion (file : BuildFile) (version : Version) : BuildFile :=
  match file.requiredVersion with
  | none => { file with requiredVersion := some version }
  | some current =>
      if compare current version = .lt then
        { file with requiredVersion := some version }
      else
        file

/--
Declare a variable.

A variable that is declared already keeps its value; declaring it again is an error
unless the caller accepts the existing one.
-/
def declareVariable
    (file : BuildFile)
    (var : Variable)
    (value : Value)
    (group : VariableGroup)
    (acceptExisting : Bool) :
    Except BuildError Variable × BuildFile :=
  if file.hasVariable var then
    if acceptExisting then
      (.ok var, file)
    else
      (.error (.alreadyExists .variableEntry var.name), file)
  else
    match value.check with
    | .error illegal => (.error (.illegalNewline illegal), file)
    | .ok () =>
        (.ok var,
          { file with
            knownVariables := file.knownVariables ++ [var]
            assignments :=
              file.assignments ++ [{ group, target := var, value }] })

/-- Declare the variable that holds a tool's invocation, unless there is one. -/
def internTool : Interning BuildFile BuildError :=
  fun file tool =>
    file.declareVariable (.ofString tool.name) tool.invocation .command true

/-- Check a rule before it is declared, and find its pool. -/
def checkRule
    (file : BuildFile)
    (name : String)
    (command : Commands)
    (options : RuleOptions) :
    Except BuildError (Option Pool) := do
  if name = "" ∨ ¬ name.toList.all isNameCharacter then
    throw (.invalidName name)
  if name = phonyRule ∨ file.hasRule name then
    throw (.alreadyExists .ruleEntry name)
  let pool ← Pool.ofName (options.pool.getD "")
  BuildError.ofLineCheck command.check
  BuildError.checkOptional Fragment.check options.depfile
  BuildError.checkOptional (Text.checkSingleLine ·.toList) options.deps
  return pool

/-- Require the version that a rule's pool needs, if it has one. -/
def requirePool (file : BuildFile) : Option Pool → BuildFile
  | none => file
  | some pool => file.requireVersion pool.minimumVersion

/-- Declare a rule. -/
def declareRule
    (file : BuildFile)
    (name : String)
    (command : Commands)
    (options : RuleOptions) :
    Except BuildError Unit × BuildFile :=
  match file.checkRule name command options with
  | .error error => (.error error, file)
  | .ok pool =>
      let conversion := command.convert internTool file
      match conversion.failure with
      | some error => (.error error, conversion.state)
      | none =>
          let rule : Rule :=
            { name
              command := conversion.converted.toValue
              depfile := options.depfile
              deps := options.deps
              generator := options.generator
              pool
              restat := options.restat }
          let later := conversion.state.requirePool pool
          (.ok (), { later with rules := later.rules ++ [rule] })

/-- Outputs that are known already or repeat an earlier one of the same list. -/
def repeatedOutputs (known : List Fragment) : List Fragment → List Fragment
  | [] => []
  | output :: rest =>
      if output ∈ known then
        output :: repeatedOutputs known rest
      else
        repeatedOutputs (output :: known) rest

/-- Check an edge before it is declared. -/
def checkEdge (file : BuildFile) (edge : Edge) : Except BuildError Unit := do
  if edge.rule ≠ phonyRule ∧ ¬ file.hasRule edge.rule then
    throw (.unknownRule edge.rule)
  if edge.outputs = [] then
    throw (.missingOutputs edge.rule)
  BuildError.ofLineCheck (Fragment.checkAll edge.outputs)
  BuildError.ofLineCheck (Fragment.checkAll edge.inputs)
  BuildError.ofLineCheck (Fragment.checkAll edge.implicit)
  BuildError.ofLineCheck (Fragment.checkAll edge.orderOnly)
  edge.overrides.values.forM fun value => BuildError.ofLineCheck value.check
  match repeatedOutputs file.knownOutputs edge.outputs with
  | [] => return ()
  | repeated => throw (.duplicateOutputs (repeated.map Fragment.display))

/-- Convert the tools in the values of entries, one after the other. -/
def convertEntries
    (intern : Interning State Refusal) :
    List (α × Value) →
    State →
    Conversion State Refusal (List (α × Value))
  | [], state => { converted := [], state, failure := none }
  | (key, value) :: rest, state =>
      ((value.convert intern state).map (key, ·)).thenRest rest
        (convertEntries intern rest)

/-- Conversion leaves the keys of entries alone. -/
theorem keys_convertEntries
    (intern : Interning State Refusal)
    (entries : List (α × Value))
    (state : State) :
    (convertEntries intern entries state).converted.map Prod.fst =
      entries.map Prod.fst := by
  induction entries generalizing state with
  | nil =>
      rfl
  | cons entry rest inductionHypothesis =>
      simp only [convertEntries, Conversion.thenRest, Conversion.map]
      split
      · simp
      · simp [inductionHypothesis]

/-- Convert the tools in the values of a table, in the order of its keys. -/
def convertTable
    (intern : Interning State Refusal)
    (table : Table α Value)
    (state : State) :
    Conversion State Refusal (Table α Value) :=
  let conversion := convertEntries intern table.entries state
  { converted :=
      { entries := conversion.converted
        distinct := by
          have oldDistinct := table.distinct
          rw [keys_convertEntries]
          exact oldDistinct }
    state := conversion.state
    failure := conversion.failure }

/-- Declare an edge. -/
def declareEdge
    (file : BuildFile)
    (edge : Edge) :
    Except BuildError Unit × BuildFile :=
  match file.checkEdge edge with
  | .error error => (.error error, file)
  | .ok () =>
      let conversion := convertTable internTool edge.overrides file
      match conversion.failure with
      | some error => (.error error, conversion.state)
      | none =>
          let later := conversion.state
          (.ok (),
            { later with
              edges :=
                later.edges ++ [{ edge with overrides := conversion.converted }]
              knownOutputs := later.knownOutputs ++ edge.outputs })

/-- Add default targets; repeats are kept. -/
def addDefaults
    (file : BuildFile)
    (targets : List Fragment) :
    Except BuildError Unit × BuildFile :=
  match Fragment.checkAll targets with
  | .error illegal => (.error (.illegalNewline illegal), file)
  | .ok () => (.ok (), { file with defaults := file.defaults ++ targets })

end BuildFile

end BuildGraph
