import BuildGraph.Proofs.Additions
import Mathlib.Data.List.Nodup

namespace BuildGraph

/-!
# Consistency of build files

A build file knows twice which variables are taken and which outputs are built: once in a
list that is looked up, and once in the entries themselves.  Every operation, accepted or
not, keeps the two in step, keeps names and outputs unique, and leaves no tool in a rule
or an edge.
-/

/-- Items that are new to a list stay distinct behind it. -/
theorem nodup_append_of_fresh
    {first second : List Item}
    (distinct : first.Nodup)
    (othersDistinct : second.Nodup)
    (fresh : ∀ item ∈ second, item ∉ first) :
    (first ++ second).Nodup := by
  rw [List.nodup_append]
  refine ⟨distinct, othersDistinct, ?_⟩
  rintro item inFirst other inSecond rfl
  exact fresh item inSecond inFirst

namespace BuildFile

/-- The assignments of all groups, in the order in which the groups are written. -/
def groupedAssignments (file : BuildFile) : List Assignment :=
  VariableGroup.all.flatMap file.assignmentsOf

/-- Group by group the assignments are the same as in order of declaration. -/
theorem perm_groupedAssignments
    (file : BuildFile) :
    file.groupedAssignments.Perm file.assignments := by
  have anyList :
      ∀ assignments : List Assignment,
        (VariableGroup.all.flatMap fun group =>
            assignments.filter (·.group = group)).Perm assignments := by
    intro assignments
    induction assignments with
    | nil =>
        exact .refl []
    | cons assignment rest inductionHypothesis =>
        have behindHead := inductionHypothesis.cons assignment
        simp only [VariableGroup.all, List.flatMap_cons, List.flatMap_nil,
          List.append_nil] at behindHead ⊢
        refine .trans ?_ behindHead
        -- In front of its own group an assignment has to pass those of earlier groups.
        cases group : assignment.group with
        | path =>
            simp [group]
        | command =>
            simp [group]
        | flags =>
            simp only [List.filter_cons, group, reduceCtorEq, decide_false,
              decide_true, ↓reduceIte, Bool.false_eq_true, List.cons_append]
            rw [← List.append_assoc, ← List.append_assoc]
            exact List.perm_middle
        | other =>
            simp only [List.filter_cons, group, reduceCtorEq, decide_false,
              decide_true, ↓reduceIte, Bool.false_eq_true]
            rw [← List.append_assoc, ← List.append_assoc, ← List.append_assoc,
              ← List.append_assoc]
            exact List.perm_middle
  exact anyList file.assignments

/-- Every variable is declared once, and known just when it is declared. -/
structure ConsistentVariables (file : BuildFile) : Prop where
  distinct : file.declaredVariables.Nodup
  known : file.knownVariables = file.declaredVariables

/--
Rules have distinct and proper names, edges refer to them and build something, no output is
built twice, and what is built is known.  No tool is left in any of them.
-/
structure ConsistentGraph (file : BuildFile) : Prop where
  rulesDistinct : file.ruleNames.Nodup
  ruleNames :
    ∀ name ∈ file.ruleNames,
      name ≠ "" ∧ name.toList.all isNameCharacter = true ∧ name ≠ phonyRule
  rulesToolless : ∀ rule ∈ file.rules, rule.command.tools = []
  edgesComplete :
    ∀ edge ∈ file.edges,
      edge.outputs ≠ [] ∧
        (edge.rule = phonyRule ∨ edge.rule ∈ file.ruleNames)
  edgesToolless :
    ∀ edge ∈ file.edges, ∀ value ∈ edge.overrides.values, value.tools = []
  outputsDistinct : file.outputs.Nodup
  outputsKnown : file.knownOutputs = file.outputs

/-- Everything that a file keeps of itself agrees. -/
structure Consistent (file : BuildFile) : Prop where
  vars : file.ConsistentVariables
  graph : file.ConsistentGraph

/-- The graph does not depend on the variables. -/
theorem ConsistentGraph.of_agrees
    {file later : BuildFile}
    (consistent : file.ConsistentGraph)
    (agrees : AgreesBesidesVariables file later) :
    later.ConsistentGraph := by
  have ruleNames := agrees.ruleNames
  have outputs : later.outputs = file.outputs :=
    congrArg (List.flatMap Edge.outputs) agrees.edges
  constructor
  · rw [ruleNames]
    exact consistent.rulesDistinct
  · rw [ruleNames]
    exact consistent.ruleNames
  · rw [agrees.rules]
    exact consistent.rulesToolless
  · rw [agrees.edges, ruleNames]
    exact consistent.edgesComplete
  · rw [agrees.edges]
    exact consistent.edgesToolless
  · rw [outputs]
    exact consistent.outputsDistinct
  · rw [agrees.knownOutputs, outputs]
    exact consistent.outputsKnown

/-- A new variable keeps a file consistent. -/
theorem Consistent.withVariable
    {file : BuildFile}
    (consistent : file.Consistent)
    {assignment : Assignment}
    (fresh : file.hasVariable assignment.target = false) :
    (file.withVariable assignment).Consistent := by
  have notDeclared : assignment.target ∉ file.declaredVariables := by
    rw [← consistent.vars.known]
    simpa [hasVariable] using fresh
  have declaredLater :
      (file.withVariable assignment).declaredVariables =
        file.declaredVariables ++ [assignment.target] := by
    simp [declaredVariables, BuildFile.withVariable]
  refine ⟨⟨?_, ?_⟩, consistent.graph.of_agrees ⟨rfl, rfl, rfl, rfl, rfl, rfl, rfl⟩⟩
  · rw [declaredLater]
    exact nodup_append_of_fresh consistent.vars.distinct (by simp)
      (by simpa using notDeclared)
  · rw [declaredLater, ← consistent.vars.known]
    rfl

/-- The required version and the default targets have no part in consistency. -/
theorem Consistent.withSettings
    {file : BuildFile}
    (consistent : file.Consistent)
    (required : Option Version)
    (defaults : List Fragment) :
    Consistent { file with requiredVersion := required, defaults } where
  vars := ⟨consistent.vars.distinct, consistent.vars.known⟩
  graph :=
    ⟨consistent.graph.rulesDistinct, consistent.graph.ruleNames,
      consistent.graph.rulesToolless, consistent.graph.edgesComplete,
      consistent.graph.edgesToolless, consistent.graph.outputsDistinct,
      consistent.graph.outputsKnown⟩

/-- A new rule without tools keeps a file consistent. -/
theorem Consistent.withRule
    {file : BuildFile}
    (consistent : file.Consistent)
    {rule : Rule}
    (storable : rule.Storable)
    (fresh : rule.name ∉ file.ruleNames) :
    (file.withRule rule).Consistent := by
  have ruleNames : (file.withRule rule).ruleNames = file.ruleNames ++ [rule.name] := by
    simp [BuildFile.ruleNames, BuildFile.withRule]
  refine ⟨⟨consistent.vars.distinct, consistent.vars.known⟩, ?_⟩
  constructor
  · rw [ruleNames]
    exact nodup_append_of_fresh consistent.graph.rulesDistinct (by simp)
      (by simpa using fresh)
  · rw [ruleNames]
    exact forall_mem_concat consistent.graph.ruleNames
      ⟨storable.notEmpty, storable.nameCharacters, storable.notPhony⟩
  · exact forall_mem_concat consistent.graph.rulesToolless storable.toolless
  · intro edge member
    obtain ⟨hasOutputs, known⟩ := consistent.graph.edgesComplete edge member
    rw [ruleNames]
    exact ⟨hasOutputs, known.imp_right (List.mem_append_left _)⟩
  · exact consistent.graph.edgesToolless
  · exact consistent.graph.outputsDistinct
  · exact consistent.graph.outputsKnown

/-- An edge with new outputs and without tools keeps a file consistent. -/
theorem Consistent.withEdge
    {file : BuildFile}
    (consistent : file.Consistent)
    {edge : Edge}
    (storable : edge.Storable)
    (knownRule : edge.rule = phonyRule ∨ edge.rule ∈ file.ruleNames)
    (fresh : ∀ output ∈ edge.outputs, output ∉ file.knownOutputs) :
    (file.withEdge edge).Consistent := by
  have outputs : (file.withEdge edge).outputs = file.outputs ++ edge.outputs := by
    simp [BuildFile.outputs, BuildFile.withEdge]
  refine ⟨⟨consistent.vars.distinct, consistent.vars.known⟩, ?_⟩
  constructor
  · exact consistent.graph.rulesDistinct
  · exact consistent.graph.ruleNames
  · exact consistent.graph.rulesToolless
  · exact forall_mem_concat consistent.graph.edgesComplete
      ⟨storable.hasOutputs, knownRule⟩
  · exact forall_mem_concat consistent.graph.edgesToolless storable.toolless
  · rw [outputs]
    rw [consistent.graph.outputsKnown] at fresh
    exact nodup_append_of_fresh consistent.graph.outputsDistinct storable.distinct
      fresh
  · rw [outputs, ← consistent.graph.outputsKnown]
    rfl

/-- Every addition keeps a file consistent. -/
theorem Consistent.adds
    {file later : BuildFile}
    (consistent : file.Consistent)
    (adds : file.Adds later) :
    later.Consistent := by
  cases adds with
  | assignment fresh _ =>
      exact consistent.withVariable fresh
  | version version =>
      obtain ⟨required, shape⟩ := file.requireVersion_eq version
      rw [shape]
      exact consistent.withSettings required file.defaults
  | rule storable fresh =>
      exact consistent.withRule storable fresh
  | edge storable knownRule fresh =>
      exact consistent.withEdge storable knownRule fresh
  | defaults checked =>
      exact consistent.withSettings file.requiredVersion _

theorem consistent_empty
    (source : String)
    (target : Target) :
    (empty source target).Consistent := by
  refine ⟨⟨?_, rfl⟩, ⟨?_, ?_, ?_, ?_, ?_, ?_, rfl⟩⟩ <;>
    simp [empty, declaredVariables, ruleNames, outputs]

/-- Every reachable file is consistent. -/
theorem Reachable.consistent
    {file : BuildFile}
    (reachable : file.Reachable) :
    file.Consistent :=
  reachable.of_additions consistent_empty Consistent.adds

/-! ## What a caller can rely on -/

/-- What holds of the variables, rules and edges of a file, as a caller sees them. -/
structure GraphInvariant (file : BuildFile) : Prop where
  /-- No name is assigned twice, in one group or in two. -/
  variablesDistinct :
    (file.groupedAssignments.map fun assignment => assignment.target.name).Nodup
  /-- A spelling is taken just when its normalised name is assigned in some group. -/
  hasVariable_iff :
    ∀ spelling,
      file.hasVariable (.ofString spelling) = true ↔
        ∃ group, ∃ assignment ∈ file.assignmentsOf group,
          assignment.target.name = (Variable.ofString spelling).name
  /-- No rule is declared twice. -/
  rulesDistinct : (file.rules.map Rule.name).Nodup
  /-- Rules have proper names, and none has the name of the built-in rule. -/
  ruleNames :
    ∀ rule ∈ file.rules,
      rule.name ≠ "" ∧
        (∀ character ∈ rule.name.toList, isNameCharacter character = true) ∧
        rule.name ≠ phonyRule
  /-- Every edge builds something, by a rule that exists. -/
  edgesComplete :
    ∀ edge ∈ file.edges,
      edge.outputs ≠ [] ∧
        (edge.rule = phonyRule ∨ ∃ rule ∈ file.rules, rule.name = edge.rule)
  /-- Nothing is built twice, by one edge or by two. -/
  outputsDistinct : (file.edges.flatMap Edge.outputs).Nodup
  /-- An output is taken just when some edge builds it. -/
  hasBuild_iff :
    ∀ output,
      file.hasBuild output = true ↔ ∃ edge ∈ file.edges, output ∈ edge.outputs
  /-- No tool is left in the command of a rule. -/
  rulesToolless : ∀ rule ∈ file.rules, rule.command.tools = []
  /-- No tool is left in the overrides of an edge. -/
  overridesToolless :
    ∀ edge ∈ file.edges, ∀ value ∈ edge.overrides.values, value.tools = []

theorem mem_groupedAssignments_iff
    {file : BuildFile}
    {assignment : Assignment} :
    assignment ∈ file.groupedAssignments ↔
      ∃ group, assignment ∈ file.assignmentsOf group := by
  rw [groupedAssignments, List.mem_flatMap]
  constructor
  · rintro ⟨group, _, member⟩
    exact ⟨group, member⟩
  · rintro ⟨group, member⟩
    refine ⟨group, ?_, member⟩
    cases group <;> simp [VariableGroup.all]

/-- The names of a consistent file's variables are distinct over all groups. -/
theorem Consistent.nodup_groupedNames
    {file : BuildFile}
    (consistent : file.Consistent) :
    (file.groupedAssignments.map fun assignment => assignment.target.name).Nodup := by
  have inOrder :
      (file.assignments.map fun assignment => assignment.target.name).Nodup := by
    have named :
        (file.assignments.map fun assignment => assignment.target.name) =
          file.declaredVariables.map Variable.name := by
      simp [declaredVariables]
    rw [named]
    exact List.Nodup.map (fun _ _ => Variable.eq_of_name) consistent.vars.distinct
  exact (file.perm_groupedAssignments.map _).nodup_iff.mpr inOrder

/-- A consistent file knows a variable just when some group assigns it. -/
theorem Consistent.hasVariable_iff
    {file : BuildFile}
    (consistent : file.Consistent)
    (var : Variable) :
    file.hasVariable var = true ↔
      ∃ group, ∃ assignment ∈ file.assignmentsOf group,
        assignment.target.name = var.name := by
  rw [hasVariable, List.contains_iff_mem, consistent.vars.known,
    declaredVariables, List.mem_map]
  constructor
  · rintro ⟨assignment, member, rfl⟩
    have grouped := file.perm_groupedAssignments.mem_iff.mpr member
    obtain ⟨group, inGroup⟩ := mem_groupedAssignments_iff.mp grouped
    exact ⟨group, assignment, inGroup, rfl⟩
  · rintro ⟨group, assignment, inGroup, sameName⟩
    have grouped := mem_groupedAssignments_iff.mpr ⟨group, inGroup⟩
    exact ⟨assignment, file.perm_groupedAssignments.mem_iff.mp grouped,
      Variable.eq_of_name sameName⟩

theorem Consistent.hasBuild_iff
    {file : BuildFile}
    (consistent : file.Consistent)
    (output : Fragment) :
    file.hasBuild output = true ↔ ∃ edge ∈ file.edges, output ∈ edge.outputs := by
  rw [hasBuild, List.contains_iff_mem, consistent.graph.outputsKnown, outputs,
    List.mem_flatMap]

/--
Whatever run of operations made a file, rejected ones included, its variables, rules and
edges are in order.
-/
theorem Reachable.graphInvariant
    {file : BuildFile}
    (reachable : file.Reachable) :
    file.GraphInvariant := by
  have consistent := reachable.consistent
  refine
    { variablesDistinct := consistent.nodup_groupedNames
      hasVariable_iff := fun spelling => consistent.hasVariable_iff _
      rulesDistinct := consistent.graph.rulesDistinct
      ruleNames := ?_
      edgesComplete := ?_
      outputsDistinct := consistent.graph.outputsDistinct
      hasBuild_iff := consistent.hasBuild_iff
      rulesToolless := consistent.graph.rulesToolless
      overridesToolless := consistent.graph.edgesToolless }
  · intro rule member
    have proper :=
      consistent.graph.ruleNames rule.name (List.mem_map_of_mem member)
    exact ⟨proper.1, List.all_eq_true.mp proper.2.1, proper.2.2⟩
  · intro edge member
    obtain ⟨hasOutputs, known⟩ := consistent.graph.edgesComplete edge member
    exact ⟨hasOutputs, known.imp_right List.mem_map.mp⟩

/--
A file keeps its order through a rejected variable, tools that are nested in a command and
in an override, and edges that share a rule.
-/
theorem graphInvariant_mixedRun :
    let compiler := Argument.tool "cc" (.words [.text (.plain "gcc")])
    let compile := Commands.single (.arguments [compiler])
    let file :=
      run
        [.declareVariable (.ofString "in-dir") (.text (.plain "a")) .path false,
          .declareVariable (.ofString "in_dir") (.text (.plain "b")) .flags false,
          .declareRule "compile" (.single (.nested compile)) {},
          .declareEdge { outputs := [.plain "a.o"], rule := "compile" },
          .declareEdge { outputs := [.plain "a.o"], rule := "phony" },
          .declareCommandEdge { outputs := [.plain "test"], commands := compile }]
        (empty "build.yaml" (.forPlatform .linux))
    file.GraphInvariant ∧
      file.ruleNames = ["compile", "console_command"] ∧
      file.declaredVariables.map Variable.name = ["in_dir", "cc"] :=
  ⟨Reachable.graphInvariant ⟨_, _, _, rfl⟩, by decide +kernel, by decide +kernel⟩

end BuildFile

end BuildGraph
