import BuildGraph.Proofs.References

namespace BuildGraph

/-!
# What command edges share

The first command edge of a kind brings a rule that runs the override of each edge, and the
first one of all brings a phony edge that is never up to date.  Neither of the two can be
rejected, so declaring a command edge is declaring one edge behind them.
-/

/-- The pool of the rule that command edges share. -/
def sharedPool (console : Bool) : Option Pool :=
  if console then some .console else none

/-- The rule that command edges bring, as it is stored. -/
def sharedRuleEntry (console : Bool) : Rule :=
  .ofDeclaration (sharedRule console) (.ofVariable commandVariable)
    (sharedRuleOptions console) (sharedPool console)

/-- The phony edge that command edges bring. -/
def outdatedEdge : Edge :=
  { outputs := [alwaysOutdated], rule := phonyRule }

theorem sharedPool_eq_console_iff
    (console : Bool) :
    sharedPool console = some .console ↔ console = true := by
  cases console <;> simp [sharedPool]

theorem sharedRule_inj
    {first second : Bool}
    (same : sharedRule first = sharedRule second) :
    first = second := by
  cases first <;> cases second <;> simp_all [sharedRule]

/-- The shared rule runs nothing but the command of the edge. -/
theorem command_sharedRuleEntry
    (console : Bool) :
    (sharedRuleEntry console).command = .words [.text commandVariable.use] := by
  simp only [sharedRuleEntry, Rule.ofDeclaration, Commands.ofVariable, Commands.single]
  rw [Commands.withReferences, Line.withReferences, Line.allWithReferences]
  rfl

namespace BuildFile

/-- The file with the shared rule, unless the name is taken. -/
def withSharedRule (file : BuildFile) (console : Bool) : BuildFile :=
  if file.hasRule (sharedRule console) then
    file
  else
    (file.requirePool (sharedPool console)).withRule (sharedRuleEntry console)

/-- The file with the phony edge that is never up to date, unless the output is taken. -/
def withOutdatedEdge (file : BuildFile) : BuildFile :=
  if file.hasBuild alwaysOutdated then
    file
  else
    file.withEdge outdatedEdge

/-- The file with all that a command edge shares with others. -/
def withSharedEntries (file : BuildFile) (console : Bool) : BuildFile :=
  (file.withSharedRule console).withOutdatedEdge

/-- The shared rule is accepted wherever its name is free. -/
theorem declareSharedRule_eq
    (file : BuildFile)
    (console : Bool) :
    file.declareSharedRule console = (.ok (), file.withSharedRule console) := by
  unfold declareSharedRule withSharedRule
  by_cases taken : file.hasRule (sharedRule console) = true
  · rw [if_pos taken, if_pos taken]
  · rw [if_neg taken, if_neg taken]
    have accepts :
        file.AcceptsRule (sharedRule console) (.ofVariable commandVariable)
          (sharedRuleOptions console) (sharedPool console) :=
      { notEmpty := by cases console <;> decide
        nameCharacters := by cases console <;> decide
        notPhony := by cases console <;> decide
        fresh := by simpa [hasRule] using taken
        knownPool := by cases console <;> rfl
        command := rfl
        depfile := by simp [sharedRuleOptions]
        deps := by simp [sharedRuleOptions] }
    have noTools : (Commands.ofVariable commandVariable).tools = [] := by
      simp [Commands.ofVariable, Commands.single, Commands.tools, Line.tools,
        Line.toolsOf, Argument.toolsOf]
    rw [declareRule_of_accepts accepts, noTools]
    rfl

/-- The phony edge is accepted wherever its output is free. -/
theorem declareAlwaysOutdated_eq
    (file : BuildFile) :
    file.declareAlwaysOutdated = (.ok (), file.withOutdatedEdge) := by
  unfold declareAlwaysOutdated withOutdatedEdge
  by_cases taken : file.hasBuild alwaysOutdated = true
  · rw [if_pos taken, if_pos taken]
  · rw [if_neg taken, if_neg taken]
    have accepts : file.AcceptsEdge outdatedEdge :=
      { knownRule := .inl rfl
        hasOutputs := by simp [outdatedEdge]
        outputs := by
          simp only [outdatedEdge, List.forall_mem_singleton]
          rfl
        inputs := by simp [outdatedEdge]
        implicit := by simp [outdatedEdge]
        orderOnly := by simp [outdatedEdge]
        overrides := by simp [outdatedEdge, Table.empty, Table.values]
        distinct := by simp [outdatedEdge]
        fresh := by simpa [outdatedEdge, hasBuild] using taken }
    exact declareEdge_of_accepts accepts

/-- A command edge is an edge behind the entries that it shares. -/
theorem declareCommandEdge_eq
    (file : BuildFile)
    (edge : CommandEdge) :
    file.declareCommandEdge edge =
      (file.withSharedEntries edge.console).declareEdge (edgeFor edge) := by
  unfold declareCommandEdge
  rw [declareSharedRule_eq]
  simp only [declareAlwaysOutdated_eq]
  rfl

/-- The tools of a command edge are those of its command. -/
theorem toolsOfEdge_edgeFor
    (edge : CommandEdge) :
    toolsOfEdge (edgeFor edge) = edge.commands.tools := by
  simp [toolsOfEdge, toolsOfEntries, edgeFor, Table.insert, Table.empty,
    Table.insertEntry, Value.tools]

theorem withSharedRule_cases
    (file : BuildFile)
    (console : Bool) :
    (file.hasRule (sharedRule console) = true ∧ file.withSharedRule console = file) ∨
      (file.hasRule (sharedRule console) = false ∧
        file.withSharedRule console =
          (file.requirePool (sharedPool console)).withRule
            (sharedRuleEntry console)) := by
  unfold withSharedRule
  by_cases taken : file.hasRule (sharedRule console) = true
  · exact .inl ⟨taken, if_pos taken⟩
  · exact .inr ⟨by simpa using taken, if_neg taken⟩

theorem withOutdatedEdge_cases
    (file : BuildFile) :
    (file.hasBuild alwaysOutdated = true ∧ file.withOutdatedEdge = file) ∨
      (file.hasBuild alwaysOutdated = false ∧
        file.withOutdatedEdge = file.withEdge outdatedEdge) := by
  unfold withOutdatedEdge
  by_cases taken : file.hasBuild alwaysOutdated = true
  · exact .inl ⟨taken, if_pos taken⟩
  · exact .inr ⟨by simpa using taken, if_neg taken⟩

/-- What command edges share, entry by entry: each is added just where its name is free. -/
theorem withSharedEntries_eq
    (file : BuildFile)
    (console : Bool) :
    file.withSharedEntries console =
      { file with
        requiredVersion :=
          if file.hasRule (sharedRule console) then file.requiredVersion
          else (file.requirePool (sharedPool console)).requiredVersion
        rules :=
          file.rules ++
            if file.hasRule (sharedRule console) then [] else [sharedRuleEntry console]
        edges :=
          file.edges ++ if file.hasBuild alwaysOutdated then [] else [outdatedEdge]
        knownOutputs :=
          file.knownOutputs ++
            if file.hasBuild alwaysOutdated then [] else [alwaysOutdated] } := by
  have ruleFirst :
      file.withSharedRule console =
        { file with
          requiredVersion :=
            if file.hasRule (sharedRule console) then file.requiredVersion
            else (file.requirePool (sharedPool console)).requiredVersion
          rules :=
            file.rules ++
              if file.hasRule (sharedRule console) then []
              else [sharedRuleEntry console] } := by
    rcases file.withSharedRule_cases console with ⟨taken, same⟩ | ⟨free, added⟩
    · simp [same, taken]
    · obtain ⟨required, shape⟩ := file.requirePool_eq (sharedPool console)
      rw [added, shape]
      simp [free, withRule]
  have sameOutputs :
      (file.withSharedRule console).hasBuild alwaysOutdated =
        file.hasBuild alwaysOutdated := by
    rw [ruleFirst]
    rfl
  unfold withSharedEntries
  rcases (file.withSharedRule console).withOutdatedEdge_cases with
    ⟨taken, same⟩ | ⟨free, added⟩
  · rw [sameOutputs] at taken
    rw [same, ruleFirst]
    simp [taken]
  · rw [sameOutputs] at free
    rw [added, ruleFirst]
    simp [free, withEdge, outdatedEdge]

/-- Behind a command edge the target that is never up to date is taken. -/
theorem alwaysOutdated_mem_knownOutputs
    (file : BuildFile) :
    alwaysOutdated ∈ file.withOutdatedEdge.knownOutputs := by
  rcases file.withOutdatedEdge_cases with ⟨taken, same⟩ | ⟨_, added⟩
  · rw [same]
    simpa [hasBuild] using taken
  · rw [added]
    simp [withEdge, outdatedEdge]

end BuildFile

end BuildGraph
