import BuildGraph.Proofs.PlanTools
import BuildGraph.Proofs.Rendering

namespace BuildGraph

/-!
# Variables of an accepted plan

The variables in the file of an accepted plan come from its variable entries first and then
from the tools that its rules, edges and command edges refer to.  Both are known by
normalised names, and of one name the first declaration counts.
-/

namespace Plan

open BuildFile (AllAccepted firstOf run)

/-- The tools whose references are converted, in the order in which they are met. -/
def convertedToolNames (plan : Plan) : List String :=
  plan.rules.flatMap (·.command.toolNames) ++
    (plan.edges.flatMap (·.overridesByVariable.values.flatMap Value.toolNames) ++
      plan.commandEdges.flatMap (·.command.toolNames))

/-- The first variable entry of a plan for a variable. -/
def firstEntry? (plan : Plan) (var : Variable) : Option VariableEntry :=
  plan.variableEntries.find? fun entry => Variable.ofString entry.name = var

/-! ## What the operations of a plan declare -/

/-- The operations of a plan, kind by kind. -/
theorem exists_of_operations
    {plan : Plan}
    {operations : List Operation}
    (resolves : plan.operations = .ok operations) :
    ∃ ofVariables ofRules ofEdges ofCommandEdges,
      plan.variableEntries.mapM (VariableEntry.operation (lookupIn plan.tools)) =
          .ok ofVariables ∧
        plan.rules.mapM (RuleEntry.operation (lookupIn plan.tools)) = .ok ofRules ∧
        plan.edges.mapM (EdgeEntry.operation (lookupIn plan.tools)) = .ok ofEdges ∧
        plan.commandEdges.mapM (CommandEdgeEntry.operation (lookupIn plan.tools)) =
          .ok ofCommandEdges ∧
        operations =
          plan.minimumVersion.toList.map .requireVersion ++
            (ofVariables ++ (ofRules ++ (ofEdges ++ (ofCommandEdges ++
              [.addDefaults (Piece.fragments plan.defaults)])))) := by
  obtain ⟨ofVariables, areOfVariables, resolves⟩ := bind_eq_ok_exists_iff.mp resolves
  obtain ⟨ofRules, areOfRules, resolves⟩ := bind_eq_ok_exists_iff.mp resolves
  obtain ⟨ofEdges, areOfEdges, resolves⟩ := bind_eq_ok_exists_iff.mp resolves
  obtain ⟨ofCommandEdges, areOfCommandEdges, ⟨⟩⟩ := bind_eq_ok_exists_iff.mp resolves
  exact ⟨ofVariables, ofRules, ofEdges, ofCommandEdges, areOfVariables, areOfRules,
    areOfEdges, areOfCommandEdges, rfl⟩

/-- The assignment that a variable entry declares. -/
structure VariableEntry.Declares
    (tools : Lookup)
    (entry : VariableEntry)
    (assignment : Assignment) :
    Prop where
  group : assignment.group = entry.group
  target : assignment.target = .ofString entry.name
  value : entry.value.resolve tools = .ok assignment.value

theorem VariableEntry.forall₂_declares
    {tools : Lookup}
    {entries : List VariableEntry}
    {operations : List Operation}
    (resolves : entries.mapM (VariableEntry.operation tools) = .ok operations) :
    List.Forall₂ (VariableEntry.Declares tools) entries
      (operations.flatMap Operation.assignments) := by
  rw [mapM_eq_ok_iff] at resolves
  induction resolves with
  | nil =>
      exact .nil
  | cons first _ inductionHypothesis =>
      obtain ⟨value, resolvesValue, rfl⟩ := functorMap_eq_ok_iff.mp first
      exact .cons ⟨rfl, rfl, resolvesValue⟩ inductionHypothesis

/-- An operation declares the variables of tools with the given names, and no others. -/
def DeclaresTools (tools : Lookup) (names : List String) (operation : Operation) : Prop :=
  ∃ found, operation.assignments = found.map Tool.assignment ∧ Finds tools names found

theorem RuleEntry.declaresTools
    {tools : Lookup}
    {entry : RuleEntry}
    {operation : Operation}
    (resolves : entry.operation tools = .ok operation) :
    DeclaresTools tools entry.command.toolNames operation := by
  obtain ⟨command, resolvesCommand, rfl⟩ := functorMap_eq_ok_iff.mp resolves
  exact ⟨command.tools, rfl, Command.finds resolvesCommand⟩

theorem EdgeEntry.declaresTools
    {tools : Lookup}
    {entry : EdgeEntry}
    {operation : Operation}
    (resolves : entry.operation tools = .ok operation) :
    DeclaresTools tools (entry.overridesByVariable.values.flatMap Value.toolNames)
      operation := by
  obtain ⟨edge, resolvesEdge, rfl⟩ := functorMap_eq_ok_iff.mp resolves
  exact ⟨BuildFile.toolsOfEdge edge, rfl, EdgeEntry.finds resolvesEdge⟩

theorem CommandEdgeEntry.declaresTools
    {tools : Lookup}
    {entry : CommandEdgeEntry}
    {operation : Operation}
    (resolves : entry.operation tools = .ok operation) :
    DeclaresTools tools entry.command.toolNames operation := by
  obtain ⟨edge, resolvesEdge, rfl⟩ := functorMap_eq_ok_iff.mp resolves
  obtain ⟨commands, resolvesCommands, ⟨⟩⟩ := bind_eq_ok_exists_iff.mp resolvesEdge
  exact ⟨commands.tools, rfl, Command.finds resolvesCommands⟩

/-- Operations declare the variables of tools one after the other. -/
theorem exists_finds_of_mapM
    {tools : Lookup}
    {operationOf : Entry → Except Cause Operation}
    {namesOf : Entry → List String}
    (each : ∀ {entry operation},
      operationOf entry = .ok operation → DeclaresTools tools (namesOf entry) operation)
    {entries : List Entry}
    {operations : List Operation}
    (resolves : entries.mapM operationOf = .ok operations) :
    ∃ found,
      operations.flatMap Operation.assignments = found.map Tool.assignment ∧
        Finds tools (entries.flatMap namesOf) found := by
  rw [mapM_eq_ok_iff] at resolves
  induction resolves with
  | nil =>
      exact ⟨[], rfl, .nil tools⟩
  | cons first _ inductionHypothesis =>
      obtain ⟨found, declares, finds⟩ := each first
      obtain ⟨others, othersDeclare, othersFind⟩ := inductionHypothesis
      refine ⟨found ++ others, ?_, finds.append othersFind⟩
      rw [List.flatMap_cons, declares, othersDeclare, List.map_append]

/-- What a plan declares: the assignments of its variable entries, then those of tools. -/
structure Declares
    (plan : Plan)
    (ofVariables : List Assignment)
    (ofTools : List Tool) :
    Prop where
  variableEntries :
    List.Forall₂ (VariableEntry.Declares (lookupIn plan.tools)) plan.variableEntries ofVariables
  tools : Finds (lookupIn plan.tools) plan.convertedToolNames ofTools

theorem exists_declares
    {plan : Plan}
    {operations : List Operation}
    (resolves : plan.operations = .ok operations) :
    ∃ ofVariables ofTools,
      plan.Declares ofVariables ofTools ∧
        operations.flatMap Operation.assignments =
          ofVariables ++ ofTools.map Tool.assignment := by
  obtain ⟨ofVariables, ofRules, ofEdges, ofCommandEdges, areOfVariables, areOfRules,
    areOfEdges, areOfCommandEdges, rfl⟩ := exists_of_operations resolves
  obtain ⟨inRules, ruleAssignments, findsInRules⟩ :=
    exists_finds_of_mapM RuleEntry.declaresTools areOfRules
  obtain ⟨inEdges, edgeAssignments, findsInEdges⟩ :=
    exists_finds_of_mapM EdgeEntry.declaresTools areOfEdges
  obtain ⟨inCommandEdges, commandEdgeAssignments, findsInCommandEdges⟩ :=
    exists_finds_of_mapM CommandEdgeEntry.declaresTools areOfCommandEdges
  refine ⟨_, inRules ++ (inEdges ++ inCommandEdges),
    ⟨VariableEntry.forall₂_declares areOfVariables,
      findsInRules.append (findsInEdges.append findsInCommandEdges)⟩, ?_⟩
  have versions :
      (plan.minimumVersion.toList.map Operation.requireVersion).flatMap
        Operation.assignments = [] := by
    cases plan.minimumVersion <;> rfl
  have defaults :
      [Operation.addDefaults (Piece.fragments plan.defaults)].flatMap
        Operation.assignments = [] :=
    rfl
  simp only [List.flatMap_append, versions, ruleAssignments, edgeAssignments,
    commandEdgeAssignments, defaults, List.nil_append, List.append_nil, List.map_append]

/-! ## The first declaration of a variable -/

/-- The first entry for a variable declares the first of the assignments to it. -/
theorem firstEntry?_rel_firstOf
    {tools : Lookup}
    {entries : List VariableEntry}
    {assignments : List Assignment}
    (declares : List.Forall₂ (VariableEntry.Declares tools) entries assignments)
    (var : Variable) :
    Option.Rel (VariableEntry.Declares tools)
      (entries.find? fun entry => Variable.ofString entry.name = var)
      (firstOf var assignments) := by
  induction declares with
  | nil =>
      exact .none
  | cons first _ inductionHypothesis =>
      rw [firstOf, List.find?_cons, List.find?_cons, first.target]
      split
      · exact .some first
      · exact inductionHypothesis

theorem mem_assignmentsOf_group_iff
    {file : BuildFile}
    {assignment : Assignment} :
    assignment ∈ file.assignmentsOf assignment.group ↔ assignment ∈ file.assignments := by
  simp [BuildFile.assignmentsOf]

/-- The first entry for a variable declares the assignment that comes first. -/
theorem Declares.firstOf_eq_some
    {plan : Plan}
    {ofVariables : List Assignment}
    {ofTools : List Tool}
    (declares : plan.Declares ofVariables ofTools)
    {var : Variable}
    {entry : VariableEntry}
    (isEntry : plan.firstEntry? var = some entry) :
    ∃ assignment,
      firstOf var ofVariables = some assignment ∧
        entry.Declares (lookupIn plan.tools) assignment := by
  have sameFirst := firstEntry?_rel_firstOf declares.variableEntries var
  rw [← firstEntry?, isEntry] at sameFirst
  cases isFirst : firstOf var ofVariables with
  | none =>
      rw [isFirst] at sameFirst
      cases sameFirst
  | some assignment =>
      rw [isFirst] at sameFirst
      cases sameFirst with
      | some declared =>
          exact ⟨assignment, rfl, declared⟩

theorem Declares.firstOf_eq_none
    {plan : Plan}
    {ofVariables : List Assignment}
    {ofTools : List Tool}
    (declares : plan.Declares ofVariables ofTools)
    {var : Variable}
    (noEntry : plan.firstEntry? var = none) :
    firstOf var ofVariables = none := by
  have sameFirst := firstEntry?_rel_firstOf declares.variableEntries var
  rw [← firstEntry?, noEntry] at sameFirst
  cases isFirst : firstOf var ofVariables with
  | none =>
      rfl
  | some assignment =>
      rw [isFirst] at sameFirst
      cases sameFirst

/-- The file of an accepted plan holds the first assignment that the plan declares. -/
theorem exists_declares_of_buildFile
    {plan : Plan}
    {choice : Option Platform}
    {file : BuildFile}
    (built : plan.buildFile choice = .ok file) :
    ∃ ofVariables ofTools,
      plan.Declares ofVariables ofTools ∧
        ∀ assignment,
          assignment ∈ file.assignments ↔
            (firstOf assignment.target ofVariables).or
                (firstOf assignment.target (ofTools.map Tool.assignment)) =
              some assignment := by
  have consistent := (reachable_of_buildFile built).consistent
  obtain ⟨operations, resolves, allAccepted, rfl⟩ := buildFile_eq_ok_iff.mp built
  obtain ⟨ofVariables, ofTools, declares, assignments⟩ := exists_declares resolves
  have consistentStart : (plan.emptyFile choice).Consistent :=
    BuildFile.consistent_empty _ _
  refine ⟨ofVariables, ofTools, declares, ?_⟩
  intro assignment
  have recorded := BuildFile.Records.run consistentStart operations assignment.target
  rw [allAccepted, assignments] at recorded
  rw [← mem_assignmentsOf_group_iff, consistent.mem_assignmentsOf_iff, recorded,
    ← BuildFile.firstOf_append]
  rfl

/-! ## Tools that stay in variables -/

theorem exists_resolved
    {operationOf : Entry → Except Cause Operation}
    {entries : List Entry}
    {operations : List Operation}
    (resolves : entries.mapM operationOf = .ok operations)
    {entry : Entry}
    (member : entry ∈ entries) :
    ∃ operation ∈ operations, operationOf entry = .ok operation :=
  exists_related_of_mem (mapM_eq_ok_iff.mp resolves) member

/-- Every reference of a plan whose entries can be resolved is found. -/
theorem lookup_of_mem_toolNames
    {plan : Plan}
    {operations : List Operation}
    (resolves : plan.operations = .ok operations)
    {name : String}
    (member : name ∈ plan.toolNames) :
    ∃ invocation, lookupIn plan.tools name = .ok invocation := by
  obtain ⟨_, _, _, _, ofVariables, ofRules, ofEdges, ofCommandEdges, _⟩ :=
    exists_of_operations resolves
  simp only [toolNames, List.mem_append, List.mem_flatMap] at member
  rcases member with ((⟨entry, inPlan, named⟩ | ⟨entry, inPlan, named⟩) |
    ⟨entry, inPlan, value, inOverrides, named⟩) | ⟨entry, inPlan, named⟩
  · obtain ⟨operation, _, isOperation⟩ := exists_resolved ofVariables inPlan
    obtain ⟨value, resolvesValue, _⟩ := functorMap_eq_ok_iff.mp isOperation
    exact (Value.finds resolvesValue).lookup named
  · obtain ⟨operation, _, isOperation⟩ := exists_resolved ofRules inPlan
    obtain ⟨found, _, finds⟩ := RuleEntry.declaresTools isOperation
    exact finds.lookup named
  · obtain ⟨operation, _, isOperation⟩ := exists_resolved ofEdges inPlan
    obtain ⟨edge, resolvesEdge, _⟩ := functorMap_eq_ok_iff.mp isOperation
    obtain ⟨resolved, isResolved⟩ := (entry.resolve_overrides resolvesEdge).1 value inOverrides
    exact (Value.finds isResolved).lookup named
  · obtain ⟨operation, _, isOperation⟩ := exists_resolved ofCommandEdges inPlan
    obtain ⟨found, _, finds⟩ := CommandEdgeEntry.declaresTools isOperation
    exact finds.lookup named

/-- A variable that no entry declares holds the invocation of a tool, and that holds none. -/
theorem Declares.of_firstEntry?_eq_none
    {plan : Plan}
    {ofVariables : List Assignment}
    {ofTools : List Tool}
    (declares : plan.Declares ofVariables ofTools)
    {assignment : Assignment}
    (isFirst :
      (firstOf assignment.target ofVariables).or
          (firstOf assignment.target (ofTools.map Tool.assignment)) =
        some assignment)
    (noEntry : plan.firstEntry? assignment.target = none) :
    assignment.group = .command ∧ assignment.value.tools = [] ∧
      ∃ name ∈ plan.convertedToolNames,
        assignment.target = .ofString name ∧
          lookupIn plan.tools name = .ok assignment.value := by
  rw [declares.firstOf_eq_none noEntry, Option.none_or] at isFirst
  obtain ⟨tool, isFound, rfl⟩ := List.mem_map.mp (List.mem_of_find?_eq_some isFirst)
  have invocation := declares.tools.invocations tool isFound
  refine ⟨rfl, (definition_of_lookupIn invocation).2, tool.name, ?_, rfl, invocation⟩
  rw [← declares.tools.names]
  exact List.mem_map_of_mem isFound

/-- A value refers to tools just when its resolved form holds some. -/
theorem toolNames_ne_nil_iff
    {tools : Lookup}
    {value : Value}
    {resolved : BuildGraph.Value}
    (resolves : value.resolve tools = .ok resolved) :
    value.toolNames ≠ [] ↔ resolved.tools ≠ [] := by
  rw [← (Value.finds resolves).names, ne_eq, List.map_eq_nil_iff]

/-- A tool stays in a variable just where the first entry for it refers to one. -/
theorem exists_tools_ne_nil_iff
    {plan : Plan}
    {choice : Option Platform}
    {file : BuildFile}
    (built : plan.buildFile choice = .ok file) :
    (∃ assignment ∈ file.assignments, assignment.value.tools ≠ []) ↔
      ∃ entry ∈ plan.variableEntries,
        plan.firstEntry? (.ofString entry.name) = some entry ∧ entry.value.toolNames ≠ [] := by
  obtain ⟨ofVariables, ofTools, declares, holds⟩ := exists_declares_of_buildFile built
  constructor
  · rintro ⟨assignment, member, holdsTool⟩
    have isFirst := (holds assignment).mp member
    cases firstFound : plan.firstEntry? assignment.target with
    | none =>
        -- The variable was introduced for a tool, whose definition refers to none.
        exact absurd (declares.of_firstEntry?_eq_none isFirst firstFound).2.1 holdsTool
    | some entry =>
        obtain ⟨declared, firstDeclared, isDeclared⟩ := declares.firstOf_eq_some firstFound
        rw [firstDeclared, Option.some_or] at isFirst
        obtain rfl := Option.some.inj isFirst
        have inPlan : entry ∈ plan.variableEntries := List.mem_of_find?_eq_some firstFound
        refine ⟨entry, inPlan, isDeclared.target ▸ firstFound, ?_⟩
        exact (toolNames_ne_nil_iff isDeclared.value).mpr holdsTool
  · rintro ⟨entry, inPlan, firstFound, refers⟩
    obtain ⟨declared, firstDeclared, isDeclared⟩ := declares.firstOf_eq_some firstFound
    refine ⟨declared, (holds declared).mpr ?_, ?_⟩
    · rw [isDeclared.target, firstDeclared, Option.some_or]
    · exact (toolNames_ne_nil_iff isDeclared.value).mp refers

/-- A file cannot be written just when one of its variables holds a tool. -/
theorem exists_generate_error_iff
    {file : BuildFile}
    (reachable : file.Reachable) :
    (∃ error, Ninja.generate file = .error error) ↔
      ∃ assignment ∈ file.assignments, assignment.value.tools ≠ [] := by
  have somewhere :
      (∃ assignment ∈ file.assignments, assignment.value.tools ≠ []) ↔
        ∃ tool, (Ninja.toolsOfVariables file).head? = some tool := by
    rw [← Option.isSome_iff_exists, List.isSome_head?, Ninja.toolsOfVariables]
    simp [file.perm_groupedAssignments.mem_iff]
  simp [somewhere, Ninja.generate_eq_error_iff reachable]

/--
In an accepted plan every reference names a tool whose definition refers to none, so no
variable that is introduced for a tool holds another one.  The file cannot be written just
when the first entry for some variable refers to a tool, and the error says so.
-/
theorem buildFile_tools
    {plan : Plan}
    {choice : Option Platform}
    {file : BuildFile}
    (built : plan.buildFile choice = .ok file) :
    (∀ name ∈ plan.toolNames,
        ∃ definition, plan.tools.find? name = some definition ∧ definition.toolNames = []) ∧
      (∀ assignment ∈ file.assignments,
        plan.firstEntry? assignment.target = none →
          assignment.group = .command ∧ assignment.value.tools = [] ∧
            ∃ name ∈ plan.convertedToolNames,
              assignment.target = .ofString name ∧
                lookupIn plan.tools name = .ok assignment.value) ∧
      ((∃ error, Ninja.generate file = .error error) ↔
        ∃ entry ∈ plan.variableEntries,
          plan.firstEntry? (.ofString entry.name) = some entry ∧
            entry.value.toolNames ≠ []) ∧
      ∀ error, Ninja.generate file = .error error → ∃ name, error = .unconvertedTool name := by
  obtain ⟨operations, resolves, _, _⟩ := buildFile_eq_ok_iff.mp built
  obtain ⟨ofVariables, ofTools, declares, holds⟩ := exists_declares_of_buildFile built
  have reachable := reachable_of_buildFile built
  refine ⟨?_, ?_, ?_, ?_⟩
  · intro name member
    obtain ⟨invocation, isFound⟩ := lookup_of_mem_toolNames resolves member
    exact (definition_of_lookupIn isFound).1
  · intro assignment member noEntry
    exact declares.of_firstEntry?_eq_none ((holds assignment).mp member) noEntry
  · exact (exists_generate_error_iff reachable).trans (exists_tools_ne_nil_iff built)
  · intro error failed
    obtain ⟨tool, _, isCause⟩ := (Ninja.generate_eq_error_iff reachable).mp failed
    exact ⟨tool.name, isCause.symm⟩

/--
A plan with tools in every kind of entry.  Its first variable is declared twice, at first
without a tool; the other one holds a tool that stays in it.
-/
def probingPlan : Plan where
  source := "probe.yaml"
  platform := none
  minimumVersion := none
  tools :=
    .ofList
      [("c++", .words [.piece (.text "g++"), .piece (.text "-pipe")]),
        ("ld", .piece (.text "lld"))]
  variableEntries :=
    [{ name := "flags", value := .piece (.text "-O2"), group := .flags
       acceptExisting := false },
      { name := "flags", value := .words [.tool "c++"], group := .flags
        acceptExisting := true },
      { name := "probe", value := .words [.tool "ld", .piece (.text "-V")], group := .other
        acceptExisting := false }]
  rules :=
    [{ name := "compile"
       command :=
        .sequence (.mk
          [.nested (.mk [.shellList [.tool "c++", .piece (.shell ">")]] .empty)] .empty)
       depfile := none, deps := none, generator := false, pool := none, restat := false }]
  edges :=
    [{ outputs := .one (.text "a.o"), rule := "compile", inputs := .many []
       implicit := .many [], orderOnly := .many []
       overrides := .ofList [("a-b", .words [.tool "c++"]), ("a_b", .words [.tool "ld"])] }]
  commandEdges :=
    [{ outputs := .one (.text "check"), command := .line (.arguments [.tool "ld"])
       inputs := .many [], implicit := .many [], orderOnly := .many [], console := true }]
  defaults := []

/-- A tool in the value of a variable is accepted, and keeps the build file from being written. -/
theorem generate_fails_probingPlan :
    ∃ file,
      probingPlan.buildFile (some .linux) = .ok file ∧
        (∃ error, Ninja.generate file = .error error) ∧
        ∀ error, Ninja.generate file = .error error →
          ∃ name, error = .unconvertedTool name := by
  have accepted : (probingPlan.buildFile (some .linux)).isOk = true := by decide +kernel
  cases built : probingPlan.buildFile (some .linux) with
  | error rejection =>
      rw [built] at accepted
      cases accepted
  | ok file =>
      obtain ⟨_, _, fails, names⟩ := buildFile_tools built
      refine ⟨file, rfl, fails.mpr ?_, names⟩
      exact ⟨_, List.mem_of_getElem? (i := 2) rfl, rfl, List.cons_ne_nil _ _⟩

/-! ## Tools that references stand for -/

/-- What an accepted plan declares is kept with references in the place of tools. -/
structure KeepsReferences (plan : Plan) (file : BuildFile) : Prop where
  rules :
    ∀ entry ∈ plan.rules, ∃ command pool,
      entry.command.resolve (lookupIn plan.tools) = .ok command ∧
        Rule.ofDeclaration entry.name command entry.options pool ∈ file.rules
  edges :
    ∀ entry ∈ plan.edges, ∃ edge,
      entry.resolve (lookupIn plan.tools) = .ok edge ∧ edge.withReferences ∈ file.edges
  commandEdges :
    ∀ entry ∈ plan.commandEdges, ∃ edge,
      entry.resolve (lookupIn plan.tools) = .ok edge ∧
        (BuildFile.edgeFor edge).withReferences ∈ file.edges

theorem keepsReferences_of_buildFile
    {plan : Plan}
    {choice : Option Platform}
    {file : BuildFile}
    (built : plan.buildFile choice = .ok file) :
    plan.KeepsReferences file := by
  obtain ⟨operations, resolves, allAccepted, rfl⟩ := buildFile_eq_ok_iff.mp built
  obtain ⟨ofVariables, ofRules, ofEdges, ofCommandEdges, _, areOfRules, areOfEdges,
    areOfCommandEdges, areOperations⟩ := exists_of_operations resolves
  have isAccepted : ∀ operation,
      operation ∈ ofRules ∨ operation ∈ ofEdges ∨ operation ∈ ofCommandEdges →
        operation ∈ BuildFile.accepted operations (plan.emptyFile choice) := by
    intro operation member
    rw [allAccepted, areOperations]
    simp only [List.mem_append]
    tauto
  constructor
  · intro entry inPlan
    obtain ⟨operation, member, isOperation⟩ := exists_resolved areOfRules inPlan
    obtain ⟨command, resolvesCommand, rfl⟩ := functorMap_eq_ok_iff.mp isOperation
    have accepted := isAccepted _ (.inl member)
    obtain ⟨pool, _, declares⟩ := BuildFile.rule?_of_mem_accepted accepted
    exact ⟨command, pool, resolvesCommand,
      BuildFile.mem_rules_run_of_accepted accepted declares⟩
  · intro entry inPlan
    obtain ⟨operation, member, isOperation⟩ := exists_resolved areOfEdges inPlan
    obtain ⟨edge, resolvesEdge, rfl⟩ := functorMap_eq_ok_iff.mp isOperation
    have accepted := isAccepted _ (.inr (.inl member))
    exact ⟨edge, resolvesEdge, BuildFile.mem_edges_run_of_accepted accepted rfl⟩
  · intro entry inPlan
    obtain ⟨operation, member, isOperation⟩ := exists_resolved areOfCommandEdges inPlan
    obtain ⟨edge, resolvesEdge, rfl⟩ := functorMap_eq_ok_iff.mp isOperation
    have accepted := isAccepted _ (.inr (.inr member))
    exact ⟨edge, resolvesEdge, BuildFile.mem_edges_run_of_accepted accepted rfl⟩

/-- The first declaration of a variable in a plan keeps a tool's invocation in it. -/
def FirstHolds (plan : Plan) (var : Variable) (invocation : BuildGraph.Value) : Prop :=
  match plan.firstEntry? var with
  | some entry =>
      entry.group = .command ∧ entry.value.resolve (lookupIn plan.tools) = .ok invocation
  | none =>
      ∃ name,
        plan.convertedToolNames.find? (fun name => Variable.ofString name = var) = some name ∧
          lookupIn plan.tools name = .ok invocation

theorem VariableEntry.Declares.eq_iff
    {tools : Lookup}
    {entry : VariableEntry}
    {assignment : Assignment}
    (declares : entry.Declares tools assignment)
    (invocation : BuildGraph.Value) :
    assignment = { group := .command, target := .ofString entry.name, value := invocation } ↔
      entry.group = .command ∧ entry.value.resolve tools = .ok invocation := by
  obtain ⟨group, target, value⟩ := assignment
  obtain ⟨rfl, rfl, isValue⟩ := declares
  rw [isValue, Except.ok.injEq, Assignment.mk.injEq]
  simp

/-- Of the variables of tools the first with a name holds the first tool of that name. -/
theorem Finds.firstOf_eq_some_iff
    {tools : Lookup}
    {names : List String}
    {found : List Tool}
    (finds : Finds tools names found)
    {var : Variable}
    {invocation : BuildGraph.Value} :
    firstOf var (found.map Tool.assignment) =
        some { group := .command, target := var, value := invocation } ↔
      ∃ name,
        names.find? (fun name => Variable.ofString name = var) = some name ∧
          tools name = .ok invocation := by
  rw [firstOf, ← finds.names, List.find?_map, List.find?_map]
  have sameTool :
      found.find? ((fun assignment => decide (assignment.target = var)) ∘ Tool.assignment) =
        found.find? ((fun name => decide (Variable.ofString name = var)) ∘ Tool.name) :=
    rfl
  rw [sameTool]
  cases isFirst :
      found.find? ((fun name => decide (Variable.ofString name = var)) ∘ Tool.name) with
  | none =>
      simp
  | some tool =>
      have isFound := finds.invocations tool (List.mem_of_find?_eq_some isFirst)
      have sameName : Variable.ofString tool.name = var := by
        simpa using List.find?_some isFirst
      simp [Tool.assignment, Tool.holder, sameName, isFound]

/--
Wherever an accepted plan refers to a tool in a command or in an override that counts, the
file has a reference to the variable of the tool's name.  That variable holds the tool
exactly if the first declaration of the variable in the plan gives it this very value: a
variable entry or another tool of the same normalised name takes the tool's place.
-/
theorem tool_held_iff
    {plan : Plan}
    {choice : Option Platform}
    {file : BuildFile}
    (built : plan.buildFile choice = .ok file) :
    plan.KeepsReferences file ∧
      ∀ name ∈ plan.convertedToolNames,
        ∃ invocation,
          lookupIn plan.tools name = .ok invocation ∧
            ({ group := .command, target := .ofString name, value := invocation } ∈
                file.assignmentsOf .command ↔
              plan.FirstHolds (.ofString name) invocation) := by
  refine ⟨keepsReferences_of_buildFile built, ?_⟩
  intro name converted
  obtain ⟨ofVariables, ofTools, declares, holds⟩ := exists_declares_of_buildFile built
  obtain ⟨invocation, isFound⟩ := declares.tools.lookup converted
  refine ⟨invocation, isFound, ?_⟩
  have isHeld :=
    holds { group := .command, target := .ofString name, value := invocation }
  rw [← mem_assignmentsOf_group_iff] at isHeld
  rw [isHeld, FirstHolds]
  cases firstFound : plan.firstEntry? (.ofString name) with
  | some entry =>
      obtain ⟨declared, firstDeclared, isDeclared⟩ := declares.firstOf_eq_some firstFound
      have sameName : Variable.ofString entry.name = .ofString name := by
        simpa using List.find?_some firstFound
      rw [firstDeclared, Option.some_or, Option.some.injEq, ← sameName]
      exact isDeclared.eq_iff invocation
  | none =>
      rw [declares.firstOf_eq_none firstFound, Option.none_or]
      exact declares.tools.firstOf_eq_some_iff

/-- A plan with two tools of the same normalised name, both of them in one command. -/
def clashingPlan : Plan where
  source := "x"
  platform := some .linux
  minimumVersion := none
  tools := .ofList [("c++", .piece (.text "g++")), ("c--", .piece (.text "cmm"))]
  variableEntries := []
  rules :=
    [{ name := "r", command := .line (.arguments [.tool "c++", .tool "c--"])
       depfile := none, deps := none, generator := false, pool := none, restat := false }]
  edges := []
  commandEdges := []
  defaults := []

/-- The first tool of a command is held under the name that it shares with the second one. -/
theorem tool_held_clashingPlan :
    ∃ file,
      clashingPlan.buildFile none = .ok file ∧
        "c++" ∈ clashingPlan.convertedToolNames ∧
        ∃ invocation,
          lookupIn clashingPlan.tools "c++" = .ok invocation ∧
            { group := .command, target := .ofString "c++", value := invocation } ∈
              file.assignmentsOf .command := by
  obtain ⟨file, built⟩ : ∃ file, clashingPlan.buildFile none = .ok file := ⟨_, rfl⟩
  obtain ⟨_, held⟩ := tool_held_iff built
  obtain ⟨invocation, isFound, heldIff⟩ := held "c++" List.mem_cons_self
  exact ⟨file, built, List.mem_cons_self, invocation, isFound,
    heldIff.mpr ⟨"c++", rfl, isFound⟩⟩

/-- The second tool of a command is replaced by the first one's variable and held nowhere. -/
theorem tool_notHeld_clashingPlan :
    ∃ file,
      clashingPlan.buildFile none = .ok file ∧
        "c--" ∈ clashingPlan.convertedToolNames ∧
        file.rules.map Rule.command =
          [.words [.text (Variable.ofString "c++").use, .text (Variable.ofString "c--").use]] ∧
        Variable.ofString "c++" = .ofString "c--" ∧
        ∃ invocation,
          lookupIn clashingPlan.tools "c--" = .ok invocation ∧
            ∀ assignment ∈ file.assignments, assignment.value ≠ invocation := by
  refine ⟨_, rfl, List.mem_cons_of_mem _ List.mem_cons_self, rfl, by decide, _, rfl, ?_⟩
  intro assignment member
  cases List.mem_singleton.mp member
  simp [Piece.fragment]

end Plan

end BuildGraph
