import BuildGraph.Proofs.Declarations
import Mathlib.Logic.Relation

namespace BuildGraph

/-!
# What a file grows by

Whatever an operation does to a file, it adds entries one at a time, each under conditions
that hold of the file that it is added to.  So what survives these additions holds of every
reachable file, however operations call each other and wherever they fail.
-/

/-- Every text of a rule is on a single line. -/
structure Rule.OnSingleLines (rule : Rule) : Prop where
  command : rule.command.check = .ok ()
  depfile : ∀ depfile ∈ rule.depfile, depfile.check = .ok ()
  deps : ∀ deps ∈ rule.deps, Text.checkSingleLine deps.toList = .ok ()

/-- Every text of an edge is on a single line. -/
structure Edge.OnSingleLines (edge : Edge) : Prop where
  outputs : ∀ output ∈ edge.outputs, output.check = .ok ()
  inputs : ∀ input ∈ edge.inputs, input.check = .ok ()
  implicit : ∀ input ∈ edge.implicit, input.check = .ok ()
  orderOnly : ∀ input ∈ edge.orderOnly, input.check = .ok ()
  overrides : ∀ value ∈ edge.overrides.values, value.check = .ok ()

/-- A rule as it is stored: with a proper name, without tools and line breaks. -/
structure Rule.Storable (rule : Rule) : Prop where
  notEmpty : rule.name ≠ ""
  nameCharacters : rule.name.toList.all isNameCharacter = true
  notPhony : rule.name ≠ phonyRule
  toolless : rule.command.tools = []
  onSingleLines : rule.OnSingleLines

/-- An edge as it is stored: with distinct outputs, without tools and line breaks. -/
structure Edge.Storable (edge : Edge) : Prop where
  hasOutputs : edge.outputs ≠ []
  distinct : edge.outputs.Nodup
  toolless : ∀ value ∈ edge.overrides.values, value.tools = []
  onSingleLines : edge.OnSingleLines

namespace BuildFile

/-- What holds of the items of a list and of one more holds of all together. -/
theorem forall_mem_concat
    {holds : Item → Prop}
    {items : List Item}
    {last : Item}
    (each : ∀ item ∈ items, holds item)
    (onLast : holds last) :
    ∀ item ∈ items ++ [last], holds item := by
  rw [List.forall_mem_append]
  exact ⟨each, by simpa using onLast⟩

/-- An accepted edge can be stored once its tools are replaced. -/
theorem storable_convertedEdge
    {file : BuildFile}
    {edge : Edge}
    (accepts : file.AcceptsEdge edge) :
    (file.convertedEdge edge).Storable where
  hasOutputs := accepts.hasOutputs
  distinct := accepts.distinct
  toolless := tools_convertedEdge accepts
  onSingleLines :=
    ⟨accepts.outputs, accepts.inputs, accepts.implicit, accepts.orderOnly,
      check_convertedEdge accepts⟩

/-- An accepted rule can be stored once its tools are replaced. -/
theorem storable_ruleFor
    {file : BuildFile}
    {name : String}
    {command : Commands}
    {options : RuleOptions}
    {pool : Option Pool}
    (accepts : file.AcceptsRule name command options pool) :
    (file.ruleFor name command options pool).Storable where
  notEmpty := accepts.notEmpty
  nameCharacters := accepts.nameCharacters
  notPhony := accepts.notPhony
  toolless := tools_ruleFor accepts
  onSingleLines := ⟨check_ruleFor accepts, accepts.depfile, accepts.deps⟩

/-- A file and the same file with one addition. -/
inductive Adds (file : BuildFile) : BuildFile → Prop where
  | assignment
      {assignment : Assignment}
      (fresh : file.hasVariable assignment.target = false)
      (checked : assignment.value.check = .ok ()) :
      Adds file (file.withVariable assignment)
  | version
      (version : Version) :
      Adds file (file.requireVersion version)
  | rule
      {rule : Rule}
      (storable : rule.Storable)
      (fresh : rule.name ∉ file.ruleNames) :
      Adds file (file.withRule rule)
  | edge
      {edge : Edge}
      (storable : edge.Storable)
      (knownRule : edge.rule = phonyRule ∨ edge.rule ∈ file.ruleNames)
      (fresh : ∀ output ∈ edge.outputs, output ∉ file.knownOutputs) :
      Adds file (file.withEdge edge)
  | defaults
      {targets : List Fragment}
      (checked : ∀ target ∈ targets, target.check = .ok ()) :
      Adds file { file with defaults := file.defaults ++ targets }

/-- A file and the same file with any number of additions. -/
def Grows : BuildFile → BuildFile → Prop :=
  Relation.ReflTransGen Adds

namespace Grows

theorem refl
    (file : BuildFile) :
    file.Grows file :=
  Relation.ReflTransGen.refl

theorem trans
    {file middle later : BuildFile}
    (first : file.Grows middle)
    (second : middle.Grows later) :
    file.Grows later :=
  Relation.ReflTransGen.trans first second

theorem thenAdds
    {file middle later : BuildFile}
    (grows : file.Grows middle)
    (adds : middle.Adds later) :
    file.Grows later :=
  Relation.ReflTransGen.tail grows adds

theorem declareVariable
    (file : BuildFile)
    (var : Variable)
    (value : Value)
    (group : VariableGroup)
    (acceptExisting : Bool) :
    file.Grows (file.declareVariable var value group acceptExisting).2 := by
  rcases file.declareVariable_cases var value group acceptExisting with
    same | ⟨fresh, checked, declared⟩
  · rw [same]
    exact .refl file
  · rw [declared]
    exact (refl file).thenAdds (.assignment fresh checked)

theorem interned
    (file : BuildFile)
    (tools : List Tool) :
    file.Grows (file.interned tools) :=
  interned_induct
    (fun middle _ grows => grows.trans (declareVariable middle _ _ _ _))
    (.refl file) tools

/-- The pool of a rule adds nothing but the version that it needs. -/
theorem requirePool
    (file : BuildFile)
    (pool : Option Pool) :
    file.Grows (file.requirePool pool) := by
  cases pool with
  | none =>
      exact .refl file
  | some pool =>
      exact (refl file).thenAdds (.version pool.minimumVersion)

/-- A declared rule comes after its tools and the version that its pool needs. -/
theorem declareRule
    (file : BuildFile)
    (name : String)
    (command : Commands)
    (options : RuleOptions) :
    file.Grows (file.declareRule name command options).2 := by
  rcases file.declareRule_cases name command options with
    ⟨error, rejected⟩ | ⟨pool, accepts, declared⟩
  · rw [rejected]
    exact .refl file
  · have storable := storable_ruleFor accepts
    have tooled := interned file command.tools
    have settled := requirePool (file.interned command.tools) pool
    -- Neither tools nor versions declare a rule, so the name is still free behind them.
    have stillFresh :
        name ∉ ((file.interned command.tools).requirePool pool).ruleNames := by
      obtain ⟨required, shape⟩ := (file.interned command.tools).requirePool_eq pool
      have agrees := file.agreesBesidesVariables_interned command.tools
      rw [shape]
      show name ∉ (file.interned command.tools).ruleNames
      rw [agrees.ruleNames]
      exact accepts.fresh
    rw [declared]
    exact (tooled.trans settled).thenAdds (.rule storable stillFresh)

/-- A declared edge comes after its tools. -/
theorem declareEdge
    (file : BuildFile)
    (edge : Edge) :
    file.Grows (file.declareEdge edge).2 := by
  rcases file.declareEdge_cases edge with ⟨error, rejected⟩ | ⟨accepts, declared⟩
  · rw [rejected]
    exact .refl file
  · have storable := storable_convertedEdge accepts
    have agrees := file.agreesBesidesVariables_interned (toolsOfEdge edge)
    rw [declared]
    refine (interned file (toolsOfEdge edge)).thenAdds (.edge storable ?_ ?_)
    · rw [agrees.ruleNames]
      exact accepts.knownRule
    · rw [agrees.knownOutputs]
      exact accepts.fresh

theorem addDefaults
    (file : BuildFile)
    (targets : List Fragment) :
    file.Grows (file.addDefaults targets).2 := by
  rcases file.addDefaults_cases targets with same | ⟨checked, added⟩
  · rw [same]
    exact .refl file
  · rw [added]
    exact (refl file).thenAdds (.defaults checked)

/-- An operation does nothing but add, whether it is accepted or not. -/
theorem perform
    (file : BuildFile)
    (operation : Operation) :
    file.Grows (operation.perform file).2 := by
  cases operation with
  | declareVariable var value group acceptExisting =>
      exact declareVariable file var value group acceptExisting
  | internTool tool =>
      exact declareVariable file _ _ _ _
  | declareRule name command options =>
      exact declareRule file name command options
  | declareEdge edge =>
      exact declareEdge file edge
  | declareCommandEdge edge =>
      exact declareCommandEdge_induct
        (fun middle name command options grows =>
          grows.trans (declareRule middle name command options))
        (fun middle edge grows => grows.trans (declareEdge middle edge))
        (.refl file) edge
  | addDefaults targets =>
      exact addDefaults file targets
  | requireVersion version =>
      exact (refl file).thenAdds (.version version)

/-- What survives every addition survives any number of them. -/
theorem induct
    {holds : BuildFile → Prop}
    (onAddition : ∀ {file later}, holds file → file.Adds later → holds later)
    {file later : BuildFile}
    (grows : file.Grows later)
    (holdsFile : holds file) :
    holds later := by
  induction grows with
  | refl =>
      exact holdsFile
  | tail _ adds inductionHypothesis =>
      exact onAddition inductionHypothesis adds

end Grows

/-- What holds of empty files and survives every addition holds of reachable files. -/
theorem Reachable.of_additions
    {holds : BuildFile → Prop}
    (onEmpty : ∀ source target, holds (empty source target))
    (onAddition : ∀ {file later}, holds file → file.Adds later → holds later)
    {file : BuildFile}
    (reachable : file.Reachable) :
    holds file :=
  reachable.induct onEmpty fun file operation holdsFile =>
    (Grows.perform file operation).induct onAddition holdsFile

/-! ## Stored texts

Every value is checked for line breaks before it is stored, and the conversion of tools
brings none in.  So whatever a file holds can be written line by line.
-/

/-- Every text of a file is on a single line. -/
structure OnSingleLines (file : BuildFile) : Prop where
  assignments : ∀ assignment ∈ file.assignments, assignment.value.check = .ok ()
  rules : ∀ rule ∈ file.rules, rule.OnSingleLines
  edges : ∀ edge ∈ file.edges, edge.OnSingleLines
  defaults : ∀ target ∈ file.defaults, target.check = .ok ()

/-- Whatever is added to a file on single lines is on single lines itself. -/
theorem OnSingleLines.adds
    {file later : BuildFile}
    (single : file.OnSingleLines)
    (adds : file.Adds later) :
    later.OnSingleLines := by
  cases adds with
  | assignment _ checked =>
      exact ⟨forall_mem_concat single.assignments checked, single.rules,
        single.edges, single.defaults⟩
  | version version =>
      obtain ⟨required, shape⟩ := file.requireVersion_eq version
      rw [shape]
      exact ⟨single.assignments, single.rules, single.edges, single.defaults⟩
  | rule storable _ =>
      exact ⟨single.assignments,
        forall_mem_concat single.rules storable.onSingleLines, single.edges,
        single.defaults⟩
  | edge storable _ _ =>
      exact ⟨single.assignments, single.rules,
        forall_mem_concat single.edges storable.onSingleLines, single.defaults⟩
  | defaults checked =>
      exact ⟨single.assignments, single.rules, single.edges,
        List.forall_mem_append.mpr ⟨single.defaults, checked⟩⟩

/-- Every reachable file is on single lines. -/
theorem Reachable.onSingleLines
    {file : BuildFile}
    (reachable : file.Reachable) :
    file.OnSingleLines := by
  refine reachable.of_additions ?_ OnSingleLines.adds
  intro source target
  constructor <;> simp [empty]

end BuildFile

end BuildGraph
