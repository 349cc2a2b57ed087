import BuildGraph.Proofs.Runs

namespace BuildGraph

/-!
# Edges that are rejected

The check of an edge stops at the first mistake, which is the one that is reported.  A command
edge can be rejected only for mistakes of its own, never for what it shares with others.  What
it shares stays behind a rejected one, where no other command edge of its kind can tell the
difference: each of them would have brought the same.
-/

/-- The texts of an edge, checked in order up to the first line break. -/
def Edge.checkTexts (edge : Edge) : Except Text.IllegalNewline Unit := do
  Fragment.checkAll edge.outputs
  Fragment.checkAll edge.inputs
  Fragment.checkAll edge.implicit
  Fragment.checkAll edge.orderOnly
  edge.overrides.values.forM Value.check

namespace BuildError

theorem ofLineCheck_bind
    (first : Except Text.IllegalNewline Unit)
    (next : Unit → Except Text.IllegalNewline Unit) :
    ofLineCheck (first >>= next) = ofLineCheck first >>= fun _ => ofLineCheck (next ()) := by
  rcases first with illegal | ⟨⟩ <;> rfl

theorem forM_ofLineCheck
    (check : Item → Except Text.IllegalNewline Unit)
    (items : List Item) :
    (items.forM fun item => ofLineCheck (check item)) = ofLineCheck (items.forM check) := by
  induction items with
  | nil =>
      rfl
  | cons item rest inductionHypothesis =>
      show (ofLineCheck (check item) >>= fun _ =>
          rest.forM fun item => ofLineCheck (check item)) =
        ofLineCheck (check item >>= fun _ => rest.forM check)
      rw [ofLineCheck_bind, inductionHypothesis]

end BuildError

namespace BuildFile

/-- The first mistake of an edge, and the error that reports it. -/
inductive RejectsEdge (file : BuildFile) (edge : Edge) : BuildError → Prop where
  | unknownRule
      (notPhony : edge.rule ≠ phonyRule)
      (unknown : edge.rule ∉ file.ruleNames) :
      RejectsEdge file edge (.unknownRule edge.rule)
  | missingOutputs
      (knownRule : edge.rule = phonyRule ∨ edge.rule ∈ file.ruleNames)
      (noOutputs : edge.outputs = []) :
      RejectsEdge file edge (.missingOutputs edge.rule)
  | illegalNewline
      {illegal : Text.IllegalNewline}
      (knownRule : edge.rule = phonyRule ∨ edge.rule ∈ file.ruleNames)
      (hasOutputs : edge.outputs ≠ [])
      (broken : edge.checkTexts = .error illegal) :
      RejectsEdge file edge (.illegalNewline illegal)
  | duplicateOutputs
      (knownRule : edge.rule = phonyRule ∨ edge.rule ∈ file.ruleNames)
      (hasOutputs : edge.outputs ≠ [])
      (onSingleLines : edge.checkTexts = .ok ())
      (repeats : repeatedOutputs file.knownOutputs edge.outputs ≠ []) :
      RejectsEdge file edge
        (.duplicateOutputs
          ((repeatedOutputs file.knownOutputs edge.outputs).map Fragment.display))

/-- The check of an edge, mistake by mistake. -/
theorem checkEdge_eq
    (file : BuildFile)
    (edge : Edge) :
    file.checkEdge edge =
      if edge.rule ≠ phonyRule ∧ edge.rule ∉ file.ruleNames then
        .error (.unknownRule edge.rule)
      else if edge.outputs = [] then
        .error (.missingOutputs edge.rule)
      else
        BuildError.ofLineCheck edge.checkTexts >>= fun _ =>
          if repeatedOutputs file.knownOutputs edge.outputs = [] then
            .ok ()
          else
            .error
              (.duplicateOutputs
                ((repeatedOutputs file.knownOutputs edge.outputs).map Fragment.display)) := by
  have lookedUp : ¬ file.hasRule edge.rule = true ↔ edge.rule ∉ file.ruleNames := by
    rw [hasRule, List.contains_iff_mem]
  unfold checkEdge Edge.checkTexts
  simp only [BuildError.ofLineCheck_bind, BuildError.forM_ofLineCheck, bind_assoc, lookedUp]
  by_cases unknown : edge.rule ≠ phonyRule ∧ edge.rule ∉ file.ruleNames
  · rw [if_pos unknown, if_pos unknown]
    rfl
  · rw [if_neg unknown, if_neg unknown]
    by_cases noOutputs : edge.outputs = []
    · rw [if_pos noOutputs, if_pos noOutputs]
      rfl
    · rw [if_neg noOutputs, if_neg noOutputs]
      cases repeatedOutputs file.knownOutputs edge.outputs with
      | nil =>
          rw [if_pos rfl]
          rfl
      | cons first rest =>
          rw [if_neg (List.cons_ne_nil first rest)]
          rfl

/-- The check of an edge reports just the first mistake. -/
theorem checkEdge_eq_error_iff
    {file : BuildFile}
    {edge : Edge}
    {error : BuildError} :
    file.checkEdge edge = .error error ↔ file.RejectsEdge edge error := by
  rw [checkEdge_eq]
  constructor
  · intro rejected
    by_cases unknown : edge.rule ≠ phonyRule ∧ edge.rule ∉ file.ruleNames
    · rw [if_pos unknown] at rejected
      obtain rfl := Except.error.inj rejected
      exact .unknownRule unknown.1 unknown.2
    · rw [if_neg unknown] at rejected
      have knownRule : edge.rule = phonyRule ∨ edge.rule ∈ file.ruleNames :=
        Classical.or_iff_not_imp_left.mpr fun notPhony =>
          Classical.not_not.mp fun absent => unknown ⟨notPhony, absent⟩
      by_cases noOutputs : edge.outputs = []
      · rw [if_pos noOutputs] at rejected
        obtain rfl := Except.error.inj rejected
        exact .missingOutputs knownRule noOutputs
      · rw [if_neg noOutputs] at rejected
        rcases texts : edge.checkTexts with illegal | ⟨⟩
        · rw [texts] at rejected
          obtain rfl := Except.error.inj rejected
          exact .illegalNewline knownRule noOutputs texts
        · rw [texts] at rejected
          by_cases fresh : repeatedOutputs file.knownOutputs edge.outputs = []
          · rw [if_pos fresh] at rejected
            cases rejected
          · rw [if_neg fresh] at rejected
            obtain rfl := Except.error.inj rejected
            exact .duplicateOutputs knownRule noOutputs texts fresh
  · have notUnknown
        (knownRule : edge.rule = phonyRule ∨ edge.rule ∈ file.ruleNames) :
        ¬ (edge.rule ≠ phonyRule ∧ edge.rule ∉ file.ruleNames) :=
      fun unknown => knownRule.elim unknown.1 unknown.2
    rintro (⟨notPhony, unknown⟩ | ⟨knownRule, noOutputs⟩ | ⟨knownRule, hasOutputs, broken⟩ |
      ⟨knownRule, hasOutputs, onSingleLines, repeats⟩)
    · rw [if_pos ⟨notPhony, unknown⟩]
    · rw [if_neg (notUnknown knownRule), if_pos noOutputs]
    · rw [if_neg (notUnknown knownRule), if_neg hasOutputs, broken]
      rfl
    · rw [if_neg (notUnknown knownRule), if_neg hasOutputs, onSingleLines, if_neg repeats]
      rfl

/-- An edge is rejected just for its first mistake, and leaves the file as it was. -/
theorem declareEdge_eq_error_iff
    {file : BuildFile}
    {edge : Edge}
    {error : BuildError} :
    (file.declareEdge edge).1 = .error error ↔ file.RejectsEdge edge error := by
  rw [← checkEdge_eq_error_iff]
  unfold declareEdge
  rcases checked : file.checkEdge edge with found | ⟨⟩
  · simp
  · have accepts := checkEdge_eq_ok_iff.mp checked
    have ended := (file.convertTable_internTool_ending accepts.overrides).1
    simp [ended]

/-! ## What is left of a rejected command edge -/

/-- A file that has both shared entries is not changed by them. -/
theorem withSharedEntries_of_taken
    {file : BuildFile}
    {console : Bool}
    (rule : file.hasRule (sharedRule console) = true)
    (outdated : alwaysOutdated ∈ file.knownOutputs) :
    file.withSharedEntries console = file := by
  have built : file.hasBuild alwaysOutdated = true := by
    simpa [hasBuild] using outdated
  rw [withSharedEntries, withSharedRule, if_pos rule, withOutdatedEdge, if_pos built]

/-- What command edges share is brought once. -/
theorem withSharedEntries_idempotent
    (file : BuildFile)
    (console : Bool) :
    (file.withSharedEntries console).withSharedEntries console =
      file.withSharedEntries console :=
  withSharedEntries_of_taken (file.hasRule_withSharedEntries console)
    (file.withSharedRule console).alwaysOutdated_mem_knownOutputs

/-- A rejected command edge leaves just what it shares. -/
theorem declareCommandEdge_snd_of_rejected
    {file : BuildFile}
    {edge : CommandEdge}
    {error : BuildError}
    (rejected : (file.declareCommandEdge edge).1 = .error error) :
    (file.declareCommandEdge edge).2 = file.withSharedEntries edge.console := by
  rw [declareCommandEdge_eq] at rejected ⊢
  rcases (file.withSharedEntries edge.console).declareEdge_cases (edgeFor edge) with
    ⟨_, refused⟩ | ⟨_, declared⟩
  · rw [refused]
  · rw [declared] at rejected
    cases rejected

/-- No command edge of a kind can tell whether what it shares is there already. -/
theorem declareCommandEdge_withSharedEntries
    (file : BuildFile)
    (edge : CommandEdge) :
    (file.withSharedEntries edge.console).declareCommandEdge edge =
      file.declareCommandEdge edge := by
  rw [declareCommandEdge_eq, declareCommandEdge_eq, withSharedEntries_idempotent]

/-- A command edge is never rejected for its rule. -/
theorem ne_unknownRule_of_rejected
    {file : BuildFile}
    {edge : CommandEdge}
    {error : BuildError}
    (rejects : (file.withSharedEntries edge.console).RejectsEdge (edgeFor edge) error)
    (rule : String) :
    error ≠ .unknownRule rule := by
  have known := file.hasRule_withSharedEntries edge.console
  rw [hasRule, List.contains_iff_mem] at known
  rintro rfl
  cases rejects with
  | unknownRule _ unknown =>
      exact unknown known

/--
A rejected command edge does not disturb those of its kind behind it.  It is rejected for the
first mistake of its own edge, which is never its rule: there are no outputs, or a text has a
line break, or an output is built already.  The file afterwards is the file before with at
most the shared rule, the version that its pool needs and the phony edge added; and any
command edge of the same kind, the rejected one included, has the same outcome there and
leaves the same file as if nothing had been tried before.
-/
theorem declareCommandEdge_of_rejected
    {file : BuildFile}
    {edge : CommandEdge}
    {error : BuildError}
    (rejected : (file.declareCommandEdge edge).1 = .error error) :
    let later := (file.declareCommandEdge edge).2
    later.RejectsEdge (edgeFor edge) error ∧
      (∀ rule, error ≠ .unknownRule rule) ∧
      later =
        { file with
          requiredVersion :=
            if file.hasRule (sharedRule edge.console) then file.requiredVersion
            else (file.requirePool (sharedPool edge.console)).requiredVersion
          rules :=
            file.rules ++
              if file.hasRule (sharedRule edge.console) then []
              else [sharedRuleEntry edge.console]
          edges :=
            file.edges ++ if file.hasBuild alwaysOutdated then [] else [outdatedEdge]
          knownOutputs :=
            file.knownOutputs ++
              if file.hasBuild alwaysOutdated then [] else [alwaysOutdated] } ∧
      ∀ other : CommandEdge,
        other.console = edge.console →
          later.declareCommandEdge other = file.declareCommandEdge other := by
  intro later
  have left : later = file.withSharedEntries edge.console :=
    declareCommandEdge_snd_of_rejected rejected
  rw [declareCommandEdge_eq, declareEdge_eq_error_iff] at rejected
  rw [left]
  refine ⟨rejected, ne_unknownRule_of_rejected rejected, withSharedEntries_eq _ _, ?_⟩
  intro other sameKind
  rw [← sameKind]
  exact file.declareCommandEdge_withSharedEntries other

/--
The command edge for a target that is built already is rejected.  The next one finds the rule
and the phony edge of the first, and is rejected for the phony target just as it would have
been in front of it.
-/
theorem declareCommandEdge_of_rejected_outdated :
    let echo := Commands.single (.arguments [.text (.plain "echo")])
    let start := empty "build.bfg" (.forPlatform .linux)
    let file := (start.declareEdge { outputs := [.plain "all"], rule := "phony" }).2
    let edge : CommandEdge := { outputs := [.plain "all"], commands := echo }
    let other : CommandEdge :=
      { outputs := [.plain "install", .plain "PHONY"], commands := echo }
    let later := (file.declareCommandEdge edge).2
    (file.declareCommandEdge edge).1 = .error (.duplicateOutputs ["all"]) ∧
      later.requiredVersion = some (.release 1 5 0) ∧
      later.ruleNames = ["console_command"] ∧
      later.edges.map Edge.outputs = [[.plain "all"], [.plain "PHONY"]] ∧
      later.declareCommandEdge other = file.declareCommandEdge other ∧
      (later.declareCommandEdge other).1 = .error (.duplicateOutputs ["PHONY"]) := by
  intro echo start file edge other later
  have rejected :
      (file.declareCommandEdge edge).1 = .error (.duplicateOutputs ["all"]) := by
    decide +revert
  have rejectedAgain :
      (later.declareCommandEdge other).1 = .error (.duplicateOutputs ["PHONY"]) := by
    clear rejected
    decide +revert
  obtain ⟨_, _, left, retried⟩ := declareCommandEdge_of_rejected rejected
  refine ⟨rejected, ?_, ?_, ?_, retried other rfl, rejectedAgain⟩
  · exact congrArg BuildFile.requiredVersion left
  · exact congrArg BuildFile.ruleNames left
  · exact congrArg (fun file => file.edges.map Edge.outputs) left

/-! ## Runs of command edges -/

theorem withSharedEntries_declareCommandEdge
    (file : BuildFile)
    (edge : CommandEdge) :
    (file.declareCommandEdge edge).2.withSharedEntries edge.console =
      (file.declareCommandEdge edge).2 := by
  have outdated := file.hasBuild_declareCommandEdge edge
  rw [hasBuild, List.contains_iff_mem] at outdated
  exact withSharedEntries_of_taken (file.hasRule_declareCommandEdge edge) outdated

/-- One command edge: what it shares, and then the edge if it is accepted. -/
theorem run_commandEdge
    (file : BuildFile)
    (edge : CommandEdge) :
    run [.declareCommandEdge edge] file =
      run (accepted [.declareCommandEdge edge] file)
        (file.withSharedEntries edge.console) := by
  have tried :
      run [.declareCommandEdge edge] file = (file.declareCommandEdge edge).2 :=
    rfl
  rw [tried, accepted, accepted, List.append_nil, Operation.isAccepted, Operation.perform]
  rcases outcome : (file.declareCommandEdge edge).1 with error | ⟨⟩
  · exact declareCommandEdge_snd_of_rejected outcome
  · rw [← file.declareCommandEdge_withSharedEntries edge]
    rfl

/-- Where the shared entries are there, rejected command edges leave no trace. -/
theorem run_commandEdges_of_taken
    {edges : List CommandEdge}
    {console : Bool}
    (sameKind : ∀ edge ∈ edges, edge.console = console)
    {file : BuildFile}
    (taken : file.withSharedEntries console = file) :
    run (edges.map .declareCommandEdge) file =
      run (accepted (edges.map .declareCommandEdge) file) file := by
  induction edges generalizing file with
  | nil =>
      rfl
  | cons edge rest inductionHypothesis =>
      rw [List.forall_mem_cons] at sameKind
      obtain ⟨rfl, restKind⟩ := sameKind
      -- Whether or not the edge is accepted, the shared entries are there behind it.
      have behind :=
        inductionHypothesis restKind (file.withSharedEntries_declareCommandEdge edge)
      have first := file.run_commandEdge edge
      rw [taken] at first
      rw [List.map_cons, ← List.singleton_append, run_append, accepted_append, run_append,
        ← first]
      exact behind

/--
Command edges of one kind, tried one after the other, leave the file that the accepted ones
among them leave behind the entries that all of them share.
-/
theorem run_commandEdges
    {edges : List CommandEdge}
    {console : Bool}
    (tried : edges ≠ [])
    (sameKind : ∀ edge ∈ edges, edge.console = console)
    (file : BuildFile) :
    run (edges.map .declareCommandEdge) file =
      run (accepted (edges.map .declareCommandEdge) file)
        (file.withSharedEntries console) := by
  cases edges with
  | nil =>
      exact absurd rfl tried
  | cons edge rest =>
      rw [List.forall_mem_cons] at sameKind
      obtain ⟨rfl, restKind⟩ := sameKind
      rw [List.map_cons, ← List.singleton_append, run_append, accepted_append, run_append,
        ← run_commandEdge]
      exact run_commandEdges_of_taken restKind (file.withSharedEntries_declareCommandEdge edge)

end BuildFile

end BuildGraph
