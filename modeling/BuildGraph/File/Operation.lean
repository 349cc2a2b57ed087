import BuildGraph.File.CommandEdge

namespace BuildGraph

/-!
# Operations on build files

A build file is reached from an empty one by a run of operations.  A rejected operation
does not end the run.
-/

/-- A declaration with everything it needs. -/
inductive Operation where
  | declareVariable
      (var : Variable)
      (value : Value)
      (group : VariableGroup)
      (acceptExisting : Bool)
  | internTool (tool : Tool)
  | declareRule (name : String) (command : Commands) (options : RuleOptions)
  | declareEdge (edge : Edge)
  | declareCommandEdge (edge : CommandEdge)
  | addDefaults (targets : List Fragment)
  | requireVersion (version : Version)

/-- Perform an operation: whether it was accepted, and the file afterwards. -/
def Operation.perform
    (operation : Operation)
    (file : BuildFile) :
    Except BuildError Unit × BuildFile :=
  match operation with
  | .declareVariable var value group acceptExisting =>
      let (outcome, later) :=
        file.declareVariable var value group acceptExisting
      (outcome.map fun _ => (), later)
  | .internTool tool =>
      let (outcome, later) := BuildFile.internTool file tool
      (outcome.map fun _ => (), later)
  | .declareRule name command options => file.declareRule name command options
  | .declareEdge edge => file.declareEdge edge
  | .declareCommandEdge edge => file.declareCommandEdge edge
  | .addDefaults targets => file.addDefaults targets
  | .requireVersion version => (.ok (), file.requireVersion version)

namespace BuildFile

/-- The file after a run of operations, rejected ones included. -/
def run (operations : List Operation) (file : BuildFile) : BuildFile :=
  operations.foldl (fun current operation => (operation.perform current).2) file

/-- Files that some run of operations makes from an empty file. -/
def Reachable (file : BuildFile) : Prop :=
  ∃ source target operations, file = run operations (empty source target)

/-- An empty file is reachable. -/
theorem reachable_empty
    (source : String)
    (target : Target) :
    Reachable (empty source target) :=
  ⟨source, target, [], rfl⟩

/-- An operation leads from reachable files to reachable files. -/
theorem Reachable.perform
    {file : BuildFile}
    (reachable : Reachable file)
    (operation : Operation) :
    Reachable (operation.perform file).2 := by
  obtain ⟨source, target, operations, rfl⟩ := reachable
  exact ⟨source, target, operations ++ [operation], by simp [run]⟩

/-- What holds of empty files and survives every operation holds of reachable files. -/
theorem Reachable.induct
    {holds : BuildFile → Prop}
    (onEmpty : ∀ source target, holds (empty source target))
    (onOperation :
      ∀ file operation, holds file → holds (Operation.perform operation file).2)
    {file : BuildFile}
    (reachable : Reachable file) :
    holds file := by
  obtain ⟨source, target, operations, rfl⟩ := reachable
  have everyRun :
      ∀ (run : List Operation) (start : BuildFile),
        holds start →
        holds (BuildFile.run run start) := by
    intro run
    induction run with
    | nil =>
        exact fun _ holdsStart => holdsStart
    | cons operation rest inductionHypothesis =>
        exact fun start holdsStart =>
          inductionHypothesis _ (onOperation start operation holdsStart)
  exact everyRun operations _ (onEmpty source target)

end BuildFile

end BuildGraph
