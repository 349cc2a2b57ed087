import BuildGraph.Proofs.Runs

namespace BuildGraph

/-!
# Edges with a command of their own

Such an edge runs its command through a rule, and runs it always through a phony edge, which
it takes as it finds them.  Both are right just when no caller declared another rule or
another edge under their names before.
-/

/-- An edge that builds just the target that is never up to date, from nothing. -/
structure Edge.IsOutdated (edge : Edge) : Prop where
  outputs : edge.outputs = [alwaysOutdated]
  rule : edge.rule = phonyRule
  inputs : edge.inputs = []
  implicit : edge.implicit = []
  orderOnly : edge.orderOnly = []

/-- A rule that runs the command of each edge, in the console just when it is asked to. -/
structure Rule.RunsEdges (rule : Rule) (console : Bool) : Prop where
  command : rule.command = .words [.text commandVariable.use]
  pool : rule.pool = some .console ↔ console = true

/-- Whether no operation declares another rule under the name of the shared one. -/
def LeavesSharedRule (operations : List Operation) (console : Bool) : Prop :=
  ∀ command options,
    .declareRule (sharedRule console) command options ∈ operations →
      command.withReferences.toValue = .words [.text commandVariable.use] ∧
        Pool.ofName (options.pool.getD "") = .ok (sharedPool console)

/-- Whether no operation declares another edge for the target that is never up to date. -/
def LeavesOutdatedEdge (operations : List Operation) : Prop :=
  ∀ edge, .declareEdge edge ∈ operations → alwaysOutdated ∈ edge.outputs → edge.IsOutdated

theorem runsEdges_sharedRuleEntry
    (console : Bool) :
    (sharedRuleEntry console).RunsEdges console :=
  ⟨command_sharedRuleEntry console, sharedPool_eq_console_iff console⟩

theorem runsEdges_ofDeclaration_iff
    {name : String}
    {command : Commands}
    {options : RuleOptions}
    {pool : Option Pool}
    {console : Bool} :
    (Rule.ofDeclaration name command options pool).RunsEdges console ↔
      command.withReferences.toValue = .words [.text commandVariable.use] ∧
        pool = sharedPool console := by
  have samePool : (pool = some .console ↔ console = true) ↔ pool = sharedPool console := by
    rcases pool with _ | ⟨⟨⟩⟩ <;> cases console <;> simp [sharedPool]
  rw [← samePool]
  exact ⟨fun runs => ⟨runs.command, runs.pool⟩, fun same => ⟨same.1, same.2⟩⟩

theorem isOutdated_outdatedEdge : outdatedEdge.IsOutdated :=
  ⟨rfl, rfl, rfl, rfl, rfl⟩

theorem isOutdated_withReferences_iff
    {edge : Edge} :
    edge.withReferences.IsOutdated ↔ edge.IsOutdated :=
  ⟨fun ⟨outputs, rule, inputs, implicit, orderOnly⟩ =>
      ⟨outputs, rule, inputs, implicit, orderOnly⟩,
    fun ⟨outputs, rule, inputs, implicit, orderOnly⟩ =>
      ⟨outputs, rule, inputs, implicit, orderOnly⟩⟩

namespace BuildFile

/-- The shared rule of a run is the one that command edges bring, or a caller's own. -/
theorem runsEdges_iff_leavesSharedRule
    {source : String}
    {target : Target}
    {operations : List Operation}
    {rule : Rule}
    {console : Bool}
    (member : rule ∈ (run operations (empty source target)).rules)
    (named : rule.name = sharedRule console) :
    rule.RunsEdges console ↔
      LeavesSharedRule (accepted operations (empty source target)) console := by
  have consistent : (run operations (empty source target)).Consistent :=
    Reachable.consistent ⟨source, target, operations, rfl⟩
  constructor
  · intro runs command options isAccepted
    obtain ⟨pool, known, declares⟩ := rule?_of_mem_accepted isAccepted
    have declared := mem_rules_run_of_accepted isAccepted declares
    obtain rfl : rule = _ := consistent.graph.rule_eq_of_name_eq member declared named
    obtain ⟨sameCommand, samePool⟩ := runsEdges_ofDeclaration_iff.mp runs
    exact ⟨sameCommand, samePool ▸ known⟩
  · intro leaves
    rcases mem_rules_run_empty_of_sharedName member named with
      ⟨operation, isAccepted, declares⟩ | rfl
    · cases operation <;> simp only [Operation.rule?, reduceCtorEq] at declares
      rename_i name command options
      obtain ⟨pool, known, sameRule⟩ := rule?_of_mem_accepted isAccepted
      obtain rfl : rule = .ofDeclaration name command options pool :=
        Option.some.inj (declares.symm.trans sameRule)
      obtain rfl : name = sharedRule console := named
      obtain ⟨sameCommand, samePool⟩ := leaves command options isAccepted
      have pools : pool = sharedPool console := Except.ok.inj (known.symm.trans samePool)
      exact runsEdges_ofDeclaration_iff.mpr ⟨sameCommand, pools⟩
    · exact runsEdges_sharedRuleEntry console

/-- The edge of a run for the shared target is the one of command edges, or a caller's own. -/
theorem isOutdated_iff_leavesOutdatedEdge
    {source : String}
    {target : Target}
    {operations : List Operation}
    {edge : Edge}
    (member : edge ∈ (run operations (empty source target)).edges)
    (builds : alwaysOutdated ∈ edge.outputs) :
    edge.IsOutdated ↔
      LeavesOutdatedEdge (accepted operations (empty source target)) := by
  have consistent : (run operations (empty source target)).Consistent :=
    Reachable.consistent ⟨source, target, operations, rfl⟩
  constructor
  · intro outdated declaredEdge isAccepted buildsToo
    have declared := mem_edges_run_of_accepted isAccepted rfl
    obtain rfl : edge = declaredEdge.withReferences :=
      consistent.graph.edge_eq_of_mem_outputs member declared builds buildsToo
    exact isOutdated_withReferences_iff.mp outdated
  · intro leaves
    rcases mem_edges_run member with old | ⟨operation, isAccepted, declares, notOwn⟩ | rfl
    · cases old
    · cases operation <;> simp only [Operation.edge?, reduceCtorEq] at declares
      · obtain rfl := Option.some.inj declares
        exact isOutdated_withReferences_iff.mpr (leaves _ isAccepted builds)
      · obtain rfl := Option.some.inj declares
        exact absurd builds (notOwn _ rfl)
    · exact isOutdated_outdatedEdge

/--
An accepted command edge comes last, carries its command with references in the place of
tools, and depends on the target that is never up to date.  Its rule runs just the command
of the edge, in the console if it was asked for, unless a caller declared another rule under
that name before; and the target is built from nothing by the phony rule, unless a caller
declared another edge for it before.
-/
theorem commandEdge_runs_iff
    {source : String}
    {target : Target}
    {operations : List Operation}
    {edge : CommandEdge}
    (isAccepted :
      (Operation.declareCommandEdge edge).isAccepted
          (run operations (empty source target)) =
        true) :
    let later := run (operations ++ [.declareCommandEdge edge]) (empty source target)
    let earlier := accepted operations (empty source target)
    ∃ last,
      later.edges.getLast? = some last ∧
      last.overrides.entries =
        [(commandVariable, .sequence edge.commands.withReferences)] ∧
      last.implicit.getLast? = some alwaysOutdated ∧
      ((∃ rule ∈ later.rules, rule.name = last.rule ∧ rule.RunsEdges edge.console) ↔
        LeavesSharedRule earlier edge.console) ∧
      ((∃ outdated ∈ later.edges, outdated.IsOutdated) ↔ LeavesOutdatedEdge earlier) := by
  intro later earlier
  let file := run operations (empty source target)
  let last := (edgeFor edge).withReferences
  have laterFile : later = (file.declareCommandEdge edge).2 :=
    run_append operations [.declareCommandEdge edge] (empty source target)
  have laterAccepted :
      accepted (operations ++ [.declareCommandEdge edge]) (empty source target) =
        earlier ++ [.declareCommandEdge edge] := by
    rw [accepted_append]
    simp [accepted, isAccepted, earlier]
  -- The command edge declares neither entry under its own name, so the callers before it decide.
  refine ⟨last, ?_, rfl, List.getLast?_concat, ?_, ?_⟩
  · have edges := (file.addsEntries_perform (.declareCommandEdge edge)).edges
    rw [if_pos isAccepted] at edges
    rw [laterFile, show (file.declareCommandEdge edge).2.edges = _ from edges]
    simp [Operation.edge?, last]
  · have taken : later.hasRule (sharedRule edge.console) = true :=
      hasRule_run_of_commandEdge (by simp) _
    obtain ⟨shared, sharedMember, sharedName⟩ := hasRule_iff.mp taken
    have sameCallers :
        LeavesSharedRule (earlier ++ [.declareCommandEdge edge]) edge.console ↔
          LeavesSharedRule earlier edge.console := by
      simp [LeavesSharedRule]
    rw [← sameCallers, ← laterAccepted]
    constructor
    · rintro ⟨rule, member, named, runs⟩
      exact (runsEdges_iff_leavesSharedRule member named).mp runs
    · intro leaves
      exact ⟨shared, sharedMember, sharedName,
        (runsEdges_iff_leavesSharedRule sharedMember sharedName).mpr leaves⟩
  · have reachable : later.Reachable := ⟨source, target, _, rfl⟩
    have taken := file.hasBuild_declareCommandEdge edge
    rw [← laterFile, reachable.consistent.hasBuild_iff] at taken
    obtain ⟨found, foundMember, foundBuilds⟩ := taken
    have sameCallers :
        LeavesOutdatedEdge (earlier ++ [.declareCommandEdge edge]) ↔
          LeavesOutdatedEdge earlier := by
      simp [LeavesOutdatedEdge]
    rw [← sameCallers, ← laterAccepted]
    constructor
    · rintro ⟨outdated, member, isOutdated⟩
      have builds : alwaysOutdated ∈ outdated.outputs := by
        simp [isOutdated.outputs]
      exact (isOutdated_iff_leavesOutdatedEdge member builds).mp isOutdated
    · intro leaves
      exact ⟨found, foundMember,
        (isOutdated_iff_leavesOutdatedEdge foundMember foundBuilds).mpr leaves⟩

/--
A caller may declare both entries by himself.  The tool in the edge's own command is replaced
at its depth.
-/
theorem commandEdge_runs_sameEntries :
    let compiler := Argument.tool "c++" (.text (.plain "g++"))
    let build :=
      Commands.single (.nested (.single (.arguments [compiler, .text (.plain "a b")])))
    let edge : CommandEdge := { outputs := [.plain "all"], commands := build }
    let operations : List Operation :=
      [.declareRule "console_command" (.ofVariable (.ofString "cmd"))
          { pool := some "console" },
        .declareEdge { outputs := [.plain "PHONY"], rule := "phony" }]
    let start := empty "build.yaml" (.forPlatform .linux)
    let later := run (operations ++ [.declareCommandEdge edge]) start
    (Operation.declareCommandEdge edge).isAccepted (run operations start) = true ∧
      ∃ last,
        later.edges.getLast? = some last ∧
        last.overrides.entries =
          [(.ofString "cmd",
            .sequence
              (.single
                (.nested
                  (.single
                    (.arguments
                      [.text (Variable.ofString "c++").use, .text (.plain "a b")])))))] ∧
        (∃ rule ∈ later.rules, rule.name = last.rule ∧ rule.RunsEdges true) ∧
        ∃ outdated ∈ later.edges, outdated.IsOutdated := by
  intro compiler build edge operations start later
  have isAccepted :
      (Operation.declareCommandEdge edge).isAccepted (run operations start) = true :=
    rfl
  have earlier : accepted operations start = operations := rfl
  have leavesRule : LeavesSharedRule (accepted operations start) true := by
    intro command options member
    rw [earlier] at member
    obtain ⟨-, rfl, rfl⟩ :
        sharedRule true = "console_command" ∧ command = .ofVariable (.ofString "cmd") ∧
          options = { pool := some "console" } := by
      simpa [operations] using member
    exact ⟨rfl, rfl⟩
  have leavesEdge : LeavesOutdatedEdge (accepted operations start) := by
    intro declared member _
    rw [earlier] at member
    obtain rfl : declared = { outputs := [.plain "PHONY"], rule := "phony" } := by
      simpa [operations] using member
    exact ⟨rfl, rfl, rfl, rfl, rfl⟩
  obtain ⟨last, isLast, override, _, runs, reruns⟩ := commandEdge_runs_iff isAccepted
  exact ⟨isAccepted, last, isLast, override, runs.mpr leavesRule, reruns.mpr leavesEdge⟩

/--
A caller's rule and edge under the names of the shared ones are taken as they are: the
accepted edge runs the caller's command, and only when the caller's input has changed.
-/
theorem commandEdge_runs_otherEntries :
    let echo := Commands.single (.arguments [.text (.plain "echo")])
    let copy := Commands.single (.arguments [.text (.plain "cp")])
    let edge : CommandEdge :=
      { outputs := [.plain "install"], commands := copy, console := false }
    let operations : List Operation :=
      [.declareRule "command" echo {},
        .declareEdge
          { outputs := [.plain "PHONY"], rule := "phony", inputs := [.plain "app"] }]
    let start := empty "build.bfg" (.forPlatform .linux)
    let later := run (operations ++ [.declareCommandEdge edge]) start
    (Operation.declareCommandEdge edge).isAccepted (run operations start) = true ∧
      later.edges.getLast?.map Edge.rule = some "command" ∧
      (¬ ∃ rule ∈ later.rules, rule.name = "command" ∧ rule.RunsEdges false) ∧
      ¬ ∃ outdated ∈ later.edges, outdated.IsOutdated := by
  intro echo copy edge operations start later
  have rules : later.rules.map Rule.command = [.words [.text (.plain "echo")]] := rfl
  have edges :
      later.edges.map (fun edge => (edge.outputs, edge.inputs)) =
        [([.plain "PHONY"], [.plain "app"]), ([.plain "install"], [])] :=
    rfl
  refine ⟨rfl, rfl, ?_, ?_⟩
  · rintro ⟨rule, member, _, runs⟩
    have command : rule.command ∈ later.rules.map Rule.command := List.mem_map_of_mem member
    rw [rules, List.mem_singleton, runs.command] at command
    cases command
  · rintro ⟨outdated, member, isOutdated⟩
    have shape :
        (outdated.outputs, outdated.inputs) ∈
          later.edges.map fun edge => (edge.outputs, edge.inputs) :=
      List.mem_map_of_mem member
    rw [edges, isOutdated.outputs, isOutdated.inputs] at shape
    simp [alwaysOutdated, Fragment.plain] at shape

end BuildFile

end BuildGraph
