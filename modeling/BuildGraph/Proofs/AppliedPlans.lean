import BuildGraph.Plan.Apply
import BuildGraph.Proofs.FirstDeclarations
import Mathlib.Data.List.Forall2

namespace BuildGraph

/-!
# Plans as runs of operations

A plan is accepted just when each of its entries can be resolved and each of the operations
that they stand for is accepted in turn.  Its file is what the run of these operations
leaves, so everything that is known of runs is known of accepted plans.
-/

theorem mapM_eq_ok_iff
    {step : Item → Except Refusal Result}
    {items : List Item}
    {results : List Result} :
    items.mapM step = .ok results ↔
      List.Forall₂ (fun item result => step item = .ok result) items results := by
  induction items generalizing results with
  | nil =>
      rw [List.mapM_nil, List.forall₂_nil_left_iff]
      exact ⟨fun same => (Except.ok.inj same).symm, fun same => same ▸ rfl⟩
  | cons item rest inductionHypothesis =>
      rw [List.mapM_cons, bind_eq_ok_exists_iff, List.forall₂_cons_left_iff]
      simp only [bind_eq_ok_exists_iff, inductionHypothesis]
      constructor
      · rintro ⟨first, isFirst, others, areOthers, ⟨⟩⟩
        exact ⟨first, others, isFirst, areOthers, rfl⟩
      · rintro ⟨first, others, isFirst, areOthers, rfl⟩
        exact ⟨first, isFirst, others, areOthers, rfl⟩

theorem exists_related_of_mem
    {related : Item → Result → Prop}
    {items : List Item}
    {results : List Result}
    (all : List.Forall₂ related items results)
    {item : Item}
    (member : item ∈ items) :
    ∃ result ∈ results, related item result := by
  induction all with
  | nil =>
      cases member
  | @cons first result _ _ isRelated _ inductionHypothesis =>
      rcases List.mem_cons.mp member with rfl | inRest
      · exact ⟨result, List.mem_cons_self, isRelated⟩
      · obtain ⟨other, isResult, otherRelated⟩ := inductionHypothesis inRest
        exact ⟨other, List.mem_cons_of_mem _ isResult, otherRelated⟩

namespace BuildFile

/-! ## Runs without a rejected operation -/

/-- Every operation of a run is accepted. -/
def AllAccepted (operations : List Operation) (file : BuildFile) : Prop :=
  accepted operations file = operations

theorem accepted_sublist
    (operations : List Operation)
    (file : BuildFile) :
    (accepted operations file).Sublist operations := by
  induction operations generalizing file with
  | nil =>
      exact .refl []
  | cons operation rest inductionHypothesis =>
      rw [accepted]
      split
      · exact (inductionHypothesis _).cons_cons operation
      · exact (inductionHypothesis _).cons operation

theorem allAccepted_nil
    (file : BuildFile) :
    AllAccepted [] file :=
  rfl

theorem allAccepted_singleton_iff
    {operation : Operation}
    {file : BuildFile} :
    AllAccepted [operation] file ↔ operation.isAccepted file = true := by
  rw [AllAccepted, accepted, accepted]
  cases operation.isAccepted file <;> simp

theorem allAccepted_append_iff
    {earlier later : List Operation}
    {file : BuildFile} :
    AllAccepted (earlier ++ later) file ↔
      AllAccepted earlier file ∧ AllAccepted later (run earlier file) := by
  unfold AllAccepted
  rw [accepted_append]
  constructor
  · intro same
    -- Neither part of a run has more accepted operations than operations.
    have earlierLength := (accepted_sublist earlier file).length_le
    have laterLength := (accepted_sublist later (run earlier file)).length_le
    have sameLength := congrArg List.length same
    rw [List.length_append, List.length_append] at sameLength
    exact List.append_inj same (by omega)
  · rintro ⟨sameEarlier, sameLater⟩
    rw [sameEarlier, sameLater]

theorem allAccepted_cons_iff
    {operation : Operation}
    {rest : List Operation}
    {file : BuildFile} :
    AllAccepted (operation :: rest) file ↔
      operation.isAccepted file = true ∧ AllAccepted rest (operation.perform file).2 := by
  rw [← List.singleton_append, allAccepted_append_iff, allAccepted_singleton_iff]
  rfl

end BuildFile

namespace Plan

open BuildFile (AllAccepted run)

/-! ## Operations of a plan -/

/-- The operation that declares a variable of a plan. -/
def VariableEntry.operation (tools : Lookup) (entry : VariableEntry) : Except Cause Operation :=
  (entry.value.resolve tools).map fun value =>
    .declareVariable (.ofString entry.name) value entry.group entry.acceptExisting

/-- The operation that declares a rule of a plan. -/
def RuleEntry.operation (tools : Lookup) (entry : RuleEntry) : Except Cause Operation :=
  (entry.command.resolve tools).map fun command =>
    .declareRule entry.name command entry.options

/-- The operation that declares an edge of a plan. -/
def EdgeEntry.operation (tools : Lookup) (entry : EdgeEntry) : Except Cause Operation :=
  (entry.resolve tools).map .declareEdge

/-- The operation that declares an edge of a plan with a command of its own. -/
def CommandEdgeEntry.operation
    (tools : Lookup)
    (entry : CommandEdgeEntry) :
    Except Cause Operation :=
  (entry.resolve tools).map .declareCommandEdge

/-- The operations that a plan stands for, in order, if each of its entries can be resolved. -/
def operations (plan : Plan) : Except Cause (List Operation) := do
  let tools := lookupIn plan.tools
  let ofVariables ← plan.variableEntries.mapM (VariableEntry.operation tools)
  let ofRules ← plan.rules.mapM (RuleEntry.operation tools)
  let ofEdges ← plan.edges.mapM (EdgeEntry.operation tools)
  let ofCommandEdges ← plan.commandEdges.mapM (CommandEdgeEntry.operation tools)
  return plan.minimumVersion.toList.map .requireVersion ++
    (ofVariables ++ (ofRules ++ (ofEdges ++ (ofCommandEdges ++
      [.addDefaults (Piece.fragments plan.defaults)]))))

/-- The file that a plan adds to. -/
def emptyFile (plan : Plan) (choice : Option Platform) : BuildFile :=
  .empty plan.source (.forPlatform (plan.targetPlatform choice))

/-! ## Applying one entry -/

theorem resolved_eq_ok_iff
    {step : Option Step}
    {outcome : Except Cause Result}
    {result : Result} :
    resolved step outcome = .ok result ↔ outcome = .ok result := by
  cases outcome <;> simp [resolved, Except.mapError]

theorem declared_eq_ok_iff
    {step : Step}
    {outcome : Except BuildError Result × BuildFile}
    {file : BuildFile} :
    declared step outcome = .ok file ↔ outcome.1.isOk = true ∧ outcome.2 = file := by
  rcases outcome with ⟨_ | _, later⟩ <;> simp [declared, Except.isOk, Except.toBool]

theorem exists_map_eq_ok_iff
    {outcome : Except Refusal Item}
    {change : Item → Result}
    {holds : Result → Prop} :
    (∃ result, outcome.map change = .ok result ∧ holds result) ↔
      ∃ item, outcome = .ok item ∧ holds (change item) := by
  cases outcome <;> simp [Except.map]

theorem isOk_map
    (outcome : Except Refusal Item)
    (change : Item → Result) :
    (outcome.map change).isOk = outcome.isOk := by
  cases outcome <;> rfl

/-- An entry is applied just when its operation is accepted, and it leaves what that leaves. -/
def Performs
    (apply : BuildFile → Entry → Except Rejection BuildFile)
    (operationOf : Entry → Except Cause Operation) :
    Prop :=
  ∀ file entry later,
    apply file entry = .ok later ↔
      ∃ operation,
        operationOf entry = .ok operation ∧
          operation.isAccepted file = true ∧ (operation.perform file).2 = later

/-- What resolves an entry and then declares the outcome performs the entry's operation. -/
theorem performs_of_declared
    {during : Entry → Option Step}
    {resolve : Entry → Except Cause Item}
    {behind : Entry → Item → Step}
    {declare : BuildFile → Entry → Item → Except BuildError Result × BuildFile}
    {operation : Entry → Item → Operation}
    (accepts : ∀ file entry item,
      (operation entry item).isAccepted file = (declare file entry item).1.isOk)
    (leaves : ∀ file entry item,
      ((operation entry item).perform file).2 = (declare file entry item).2) :
    Performs
      (fun file entry => do
        let item ← resolved (during entry) (resolve entry)
        declared (behind entry item) (declare file entry item))
      (fun entry => (resolve entry).map (operation entry)) := by
  intro file entry later
  rw [bind_eq_ok_exists_iff, exists_map_eq_ok_iff]
  simp only [resolved_eq_ok_iff, declared_eq_ok_iff, accepts, leaves]

theorem applyVariable_performs
    (tools : Lookup) :
    Performs (applyVariable tools) (VariableEntry.operation tools) :=
  performs_of_declared (fun _ _ _ => isOk_map _ _) fun _ _ _ => rfl

theorem applyRule_performs
    (tools : Lookup) :
    Performs (applyRule tools) (RuleEntry.operation tools) :=
  performs_of_declared (fun _ _ _ => rfl) fun _ _ _ => rfl

theorem applyEdge_performs
    (tools : Lookup) :
    Performs (applyEdge tools) (EdgeEntry.operation tools) :=
  performs_of_declared (fun _ _ _ => rfl) fun _ _ _ => rfl

theorem applyCommandEdge_performs
    (tools : Lookup) :
    Performs (applyCommandEdge tools) (CommandEdgeEntry.operation tools) :=
  performs_of_declared (fun _ _ _ => rfl) fun _ _ _ => rfl

/-! ## Applying a plan -/

/-- Entries are applied in turn just when their operations are accepted in a run. -/
theorem Performs.foldlM_eq_ok_iff
    {apply : BuildFile → Entry → Except Rejection BuildFile}
    {operationOf : Entry → Except Cause Operation}
    (performs : Performs apply operationOf)
    {entries : List Entry}
    {file later : BuildFile} :
    entries.foldlM apply file = .ok later ↔
      ∃ operations,
        entries.mapM operationOf = .ok operations ∧
          AllAccepted operations file ∧ run operations file = later := by
  induction entries generalizing file with
  | nil =>
      rw [List.foldlM_nil, List.mapM_nil]
      constructor
      · rintro ⟨⟩
        exact ⟨[], rfl, BuildFile.allAccepted_nil _, rfl⟩
      · rintro ⟨_, ⟨⟩, _, rfl⟩
        rfl
  | cons entry rest inductionHypothesis =>
      rw [List.foldlM_cons, List.mapM_cons, bind_eq_ok_exists_iff]
      simp only [performs _ entry, inductionHypothesis, bind_eq_ok_exists_iff]
      constructor
      · rintro ⟨_, ⟨operation, isOperation, isAccepted, rfl⟩, others, areOthers, accepted, rfl⟩
        exact ⟨operation :: others, ⟨operation, isOperation, others, areOthers, rfl⟩,
          BuildFile.allAccepted_cons_iff.mpr ⟨isAccepted, accepted⟩, rfl⟩
      · rintro ⟨_, ⟨operation, isOperation, others, areOthers, ⟨⟩⟩, accepted, rfl⟩
        obtain ⟨isAccepted, othersAccepted⟩ := BuildFile.allAccepted_cons_iff.mp accepted
        exact ⟨_, ⟨operation, isOperation, isAccepted, rfl⟩, others, areOthers,
          othersAccepted, rfl⟩

/-- Requiring a version is always accepted. -/
theorem startFile_eq_run
    (plan : Plan)
    (choice : Option Platform) :
    AllAccepted (plan.minimumVersion.toList.map .requireVersion) (plan.emptyFile choice) ∧
      run (plan.minimumVersion.toList.map .requireVersion) (plan.emptyFile choice) =
        plan.startFile choice := by
  unfold startFile
  cases plan.minimumVersion with
  | none =>
      exact ⟨rfl, rfl⟩
  | some version =>
      exact ⟨rfl, rfl⟩

/--
A plan is accepted just when its entries can be resolved and their operations are all
accepted, and then its file is the one that these operations leave.
-/
theorem buildFile_eq_ok_iff
    {plan : Plan}
    {choice : Option Platform}
    {file : BuildFile} :
    plan.buildFile choice = .ok file ↔
      ∃ operations,
        plan.operations = .ok operations ∧
          AllAccepted operations (plan.emptyFile choice) ∧
            run operations (plan.emptyFile choice) = file := by
  have defaults : ∀ last : BuildFile,
      declared .addDefaults (last.addDefaults (Piece.fragments plan.defaults)) = .ok file ↔
        AllAccepted [.addDefaults (Piece.fragments plan.defaults)] last ∧
          run [.addDefaults (Piece.fragments plan.defaults)] last = file := by
    intro last
    rw [declared_eq_ok_iff, BuildFile.allAccepted_singleton_iff]
    rfl
  obtain ⟨versionAccepted, start⟩ := plan.startFile_eq_run choice
  unfold buildFile operations
  -- Each kind of entry becomes a run of its own, and the runs follow one another.
  simp only [bind_eq_ok_exists_iff, (applyVariable_performs _).foldlM_eq_ok_iff,
    (applyRule_performs _).foldlM_eq_ok_iff, (applyEdge_performs _).foldlM_eq_ok_iff,
    (applyCommandEdge_performs _).foldlM_eq_ok_iff, defaults]
  constructor
  · rintro ⟨_, ⟨ofVariables, areOfVariables, first, rfl⟩,
      _, ⟨ofRules, areOfRules, second, rfl⟩, _, ⟨ofEdges, areOfEdges, third, rfl⟩,
      _, ⟨ofCommandEdges, areOfCommandEdges, fourth, rfl⟩, fifth, rfl⟩
    refine ⟨_, ⟨ofVariables, areOfVariables, ofRules, areOfRules, ofEdges, areOfEdges,
      ofCommandEdges, areOfCommandEdges, rfl⟩, ?_, ?_⟩
    · simp only [BuildFile.allAccepted_append_iff, start]
      exact ⟨versionAccepted, first, second, third, fourth, fifth⟩
    · simp only [BuildFile.run_append, start]
  · rintro ⟨_, ⟨ofVariables, areOfVariables, ofRules, areOfRules, ofEdges, areOfEdges,
      ofCommandEdges, areOfCommandEdges, ⟨⟩⟩, accepted, rfl⟩
    simp only [BuildFile.allAccepted_append_iff, start] at accepted
    obtain ⟨_, first, second, third, fourth, fifth⟩ := accepted
    refine ⟨_, ⟨ofVariables, areOfVariables, first, rfl⟩, _, ⟨ofRules, areOfRules, second, rfl⟩,
      _, ⟨ofEdges, areOfEdges, third, rfl⟩, _, ⟨ofCommandEdges, areOfCommandEdges, fourth, rfl⟩,
      fifth, ?_⟩
    simp only [BuildFile.run_append, start]

/-- The file of an accepted plan is reached by operations. -/
theorem reachable_of_buildFile
    {plan : Plan}
    {choice : Option Platform}
    {file : BuildFile}
    (built : plan.buildFile choice = .ok file) :
    file.Reachable := by
  obtain ⟨operations, _, _, rfl⟩ := buildFile_eq_ok_iff.mp built
  exact ⟨_, _, operations, rfl⟩

end Plan

end BuildGraph
