import BuildGraph.Proofs.RejectedEdges
import BuildGraph.Proofs.Texts
import BuildGraph.Proofs.ToolVariables

namespace BuildGraph

/-!
# Which edges are accepted

Whether an edge is accepted can be told from the file and the edge alone: from the declared
rules, the texts of the edge, and what the edges before it build.  Of an edge that is rejected
the first mistake is reported, and of outputs that are taken every one, as often as it stands
there.
-/

/-- The texts of an edge, in order: what it builds, what it needs, and its overrides. -/
def Edge.texts (edge : Edge) : List String :=
  Fragment.textsOf edge.outputs ++
    (Fragment.textsOf edge.inputs ++
      (Fragment.textsOf edge.implicit ++
        (Fragment.textsOf edge.orderOnly ++ edge.overrides.values.flatMap Value.texts)))

theorem Value.forM_check_eq_checkTexts
    (values : List Value) :
    values.forM Value.check = Text.checkTexts (values.flatMap Value.texts) := by
  induction values with
  | nil =>
      rfl
  | cons value rest inductionHypothesis =>
      show (value.check >>= fun _ => rest.forM Value.check) = _
      rw [inductionHypothesis, value.check_eq_checkTexts, List.flatMap_cons,
        Text.checkTexts_append]

/-- The check of an edge for line breaks looks at its texts. -/
theorem Edge.checkTexts_eq
    (edge : Edge) :
    edge.checkTexts = Text.checkTexts edge.texts := by
  unfold Edge.checkTexts Edge.texts
  simp only [Fragment.checkAll_eq_checkTexts, Value.forM_check_eq_checkTexts,
    Text.checkTexts_append]

namespace BuildFile

/-! ## Outputs that are taken -/

/-- An edge of the file builds the output, or it is one of those that stand earlier. -/
def IsTaken (file : BuildFile) (earlier : List Fragment) (output : Fragment) : Prop :=
  (∃ stored ∈ file.edges, output ∈ stored.outputs) ∨ output ∈ earlier

instance (file : BuildFile) (earlier : List Fragment) (output : Fragment) :
    Decidable (file.IsTaken earlier output) :=
  inferInstanceAs (Decidable (_ ∨ _))

/-- The outputs of a list that are taken where they stand, in order and with repeats. -/
def takenOutputs (file : BuildFile) (outputs : List Fragment) : List Fragment :=
  (outputs.zipIdx.filter fun entry =>
    file.IsTaken (outputs.take entry.2) entry.1).map Prod.fst

/-- One more output is repeated just when it is known or among the others. -/
theorem repeatedOutputs_concat
    (known outputs : List Fragment)
    (output : Fragment) :
    repeatedOutputs known (outputs ++ [output]) =
      repeatedOutputs known outputs ++
        if output ∈ known ∨ output ∈ outputs then [output] else [] := by
  -- An output that is passed becomes a known one, so it is looked up among these from then on.
  induction outputs generalizing known with
  | nil =>
      by_cases isKnown : output ∈ known
      · simp [repeatedOutputs, isKnown]
      · simp [repeatedOutputs, isKnown]
  | cons first rest inductionHypothesis =>
      by_cases isKnown : first ∈ known
      · have sameCondition :
            (output ∈ known ∨ output ∈ first :: rest) ↔ (output ∈ known ∨ output ∈ rest) := by
          rw [List.mem_cons]
          constructor
          · rintro (inKnown | rfl | inRest)
            · exact .inl inKnown
            · exact .inl isKnown
            · exact .inr inRest
          · exact Or.imp_right .inr
        rw [List.cons_append, repeatedOutputs, if_pos isKnown, repeatedOutputs, if_pos isKnown,
          inductionHypothesis, List.cons_append]
        simp only [sameCondition]
      · have sameCondition :
            (output ∈ known ∨ output ∈ first :: rest) ↔
              (output ∈ first :: known ∨ output ∈ rest) := by
          rw [List.mem_cons, List.mem_cons, or_assoc, or_left_comm]
        rw [List.cons_append, repeatedOutputs, if_neg isKnown, repeatedOutputs, if_neg isKnown,
          inductionHypothesis]
        simp only [sameCondition]

theorem takenOutputs_concat
    (file : BuildFile)
    (outputs : List Fragment)
    (output : Fragment) :
    file.takenOutputs (outputs ++ [output]) =
      file.takenOutputs outputs ++ if file.IsTaken outputs output then [output] else [] :=
  map_filter_zipIdx_concat file.IsTaken outputs output

/-- Where a file knows just what its edges build, the taken outputs are those repeated. -/
theorem takenOutputs_eq_repeatedOutputs
    {file : BuildFile}
    (consistent : file.Consistent)
    (outputs : List Fragment) :
    file.takenOutputs outputs = repeatedOutputs file.knownOutputs outputs := by
  have known (output : Fragment) :
      (∃ stored ∈ file.edges, output ∈ stored.outputs) ↔ output ∈ file.knownOutputs := by
    rw [consistent.graph.outputsKnown, BuildFile.outputs, List.mem_flatMap]
  induction outputs using List.reverseRecOn with
  | nil =>
      rfl
  | append_singleton outputs output inductionHypothesis =>
      rw [takenOutputs_concat, repeatedOutputs_concat, inductionHypothesis]
      simp only [IsTaken, known]

/-- An output is taken where it stands, unless all are distinct and none is built before. -/
theorem takenOutputs_eq_nil_iff
    {file : BuildFile}
    (consistent : file.Consistent)
    {outputs : List Fragment} :
    file.takenOutputs outputs = [] ↔
      (∀ output ∈ outputs, ∀ stored ∈ file.edges, output ∉ stored.outputs) ∧
        outputs.Nodup := by
  rw [takenOutputs_eq_repeatedOutputs consistent, repeatedOutputs_eq_nil_iff, and_comm]
  refine and_congr_left fun _ => forall₂_congr fun output _ => ?_
  rw [consistent.graph.outputsKnown, BuildFile.outputs, List.mem_flatMap]
  simp only [not_exists, not_and]

/-! ## Accepted and rejected edges -/

/-- Whether an edge is declared is up to its check alone. -/
theorem declareEdge_fst
    (file : BuildFile)
    (edge : Edge) :
    (file.declareEdge edge).1 = file.checkEdge edge := by
  rcases checked : file.checkEdge edge with error | ⟨⟩
  · exact declareEdge_eq_error_iff.mpr (checkEdge_eq_error_iff.mp checked)
  · rcases outcome : (file.declareEdge edge).1 with error | ⟨⟩
    · have rejects := declareEdge_eq_error_iff.mp outcome
      rw [checkEdge_eq_error_iff.mpr rejects] at checked
      cases checked
    · rfl

/-- The outcome of a declaration, told from the texts and the taken outputs of the edge. -/
theorem declareEdge_fst_eq
    {file : BuildFile}
    (consistent : file.Consistent)
    (edge : Edge) :
    (file.declareEdge edge).1 =
      if edge.rule ≠ phonyRule ∧ edge.rule ∉ file.ruleNames then
        .error (.unknownRule edge.rule)
      else if edge.outputs = [] then
        .error (.missingOutputs edge.rule)
      else
        match Text.firstBroken edge.texts with
        | some text => .error (.illegalNewline { text })
        | none =>
            if file.takenOutputs edge.outputs = [] then
              .ok ()
            else
              .error
                (.duplicateOutputs ((file.takenOutputs edge.outputs).map Fragment.display)) := by
  rw [declareEdge_fst, checkEdge_eq, edge.checkTexts_eq, Text.checkTexts,
    takenOutputs_eq_repeatedOutputs consistent]
  cases Text.firstBroken edge.texts <;> rfl

/--
A file accepts an edge just if its rule is the built-in one or declared, it builds something,
none of its texts has a line break, no edge of the file builds one of its outputs, and its
outputs are distinct.  Otherwise the first of these conditions that fails is reported: with
the rule, with the first text that has a line break, or with every output that an edge of the
file builds or that stands earlier in the same edge, in order and with repeats.
-/
theorem declareEdge_outcome
    {file : BuildFile}
    (reachable : file.Reachable)
    (edge : Edge) :
    let knownRule := edge.rule = phonyRule ∨ ∃ rule ∈ file.rules, rule.name = edge.rule
    let onSingleLines := ∀ text ∈ edge.texts, '\n' ∉ text.toList
    let newOutputs :=
      (∀ output ∈ edge.outputs, ∀ stored ∈ file.edges, output ∉ stored.outputs) ∧
        edge.outputs.Nodup
    ((file.declareEdge edge).1 = .ok () ↔
        knownRule ∧ edge.outputs ≠ [] ∧ onSingleLines ∧ newOutputs) ∧
      ∀ error,
        (file.declareEdge edge).1 = .error error ↔
          (¬ knownRule ∧ error = .unknownRule edge.rule) ∨
          (knownRule ∧ edge.outputs = [] ∧ error = .missingOutputs edge.rule) ∨
          (knownRule ∧ edge.outputs ≠ [] ∧
            ∃ text,
              Text.firstBroken edge.texts = some text ∧
                error = .illegalNewline { text }) ∨
          (knownRule ∧ edge.outputs ≠ [] ∧ onSingleLines ∧ ¬ newOutputs ∧
            error =
              .duplicateOutputs
                ((file.takenOutputs edge.outputs).map Fragment.display)) := by
  intro knownRule onSingleLines newOutputs
  have consistent := reachable.consistent
  have unknown :
      (edge.rule ≠ phonyRule ∧ edge.rule ∉ file.ruleNames) ↔ ¬ knownRule := by
    rw [ruleNames, List.mem_map, ← not_or]
  have single : Text.firstBroken edge.texts = none ↔ onSingleLines :=
    Text.firstBroken_eq_none_iff
  have fresh : file.takenOutputs edge.outputs = [] ↔ newOutputs :=
    takenOutputs_eq_nil_iff consistent
  rw [declareEdge_fst_eq consistent, ← single]
  simp only [unknown, fresh]
  by_cases known : knownRule
  · by_cases noOutputs : edge.outputs = []
    · simp [known, noOutputs, eq_comm]
    · cases Text.firstBroken edge.texts with
      | some text =>
          simp [known, noOutputs, eq_comm]
      | none =>
          by_cases new : newOutputs
          · simp [known, noOutputs, new]
          · simp [known, noOutputs, new, eq_comm]
  · simp [known, eq_comm]

/--
An output that a path and a text name alike is built once by each.  Of the outputs of another
edge those are reported that stand where one of these, or an earlier output of the same edge,
has them already.
-/
theorem declareEdge_outcome_repeats :
    let place := Fragment.path (.below .buildTree "a")
    let file :=
      run
        [.declareEdge { outputs := [.plain "a"], rule := "phony" },
          .declareEdge { outputs := [.plain "b", .plain "b"], rule := "phony" },
          .declareEdge { outputs := [place], rule := "phony" }]
        (empty "build.bfg" (.forPlatform .linux))
    let edge : Edge :=
      { outputs :=
          [.plain "b", .plain "a", .path (.installed .executables "b"), .plain "b", place,
            .plain "a", .path (.installed .executables "b")]
        rule := "phony"
        inputs := [.concat [.plain "a", .literal "\r"]] }
    let fresh : Edge := { edge with outputs := edge.outputs.take 1 }
    (file.declareEdge edge).1 =
        .error
          (.duplicateOutputs ["a", "b", "a", "a", "$(DESTDIR)$(bindir)/b"]) ∧
      (file.declareEdge fresh).1 = .ok () := by
  intro place file edge fresh
  have reachable : file.Reachable := ⟨_, _, _, rfl⟩
  refine ⟨((declareEdge_outcome reachable edge).2 _).mpr ?_,
    (declareEdge_outcome reachable fresh).1.mpr ?_⟩
  · refine .inr (.inr (.inr ⟨.inl rfl, ?_, ?_, ?_, ?_⟩))
    all_goals decide +kernel
  · refine ⟨.inl rfl, ?_, ?_, ?_, ?_⟩
    all_goals decide +kernel

end BuildFile

end BuildGraph
