import BuildGraph.Proofs.PlanTools

namespace BuildGraph

/-!
# Plans that are rejected

A plan is rejected for the first of its declarations that cannot be resolved or is not
accepted, and cut off in front of this declaration it is accepted.  What is said about the
rejection names the declaration first, unless that is a command edge whose command cannot be
resolved: then only the cause is told.
-/

/-- A list of steps fails for one of its items. -/
theorem exists_of_mapM_eq_error
    {step : Item → Except Refusal Result}
    {items : List Item}
    {refusal : Refusal}
    (failed : items.mapM step = .error refusal) :
    ∃ item ∈ items, step item = .error refusal := by
  induction items with
  | nil =>
      cases failed
  | cons item rest inductionHypothesis =>
      rw [List.mapM_cons, bind_eq_error_iff] at failed
      rcases failed with first | ⟨_, _, failed⟩
      · exact ⟨item, List.mem_cons_self, first⟩
      · rcases bind_eq_error_iff.mp failed with others | ⟨_, _, ⟨⟩⟩
        obtain ⟨other, member, fails⟩ := inductionHypothesis others
        exact ⟨other, List.mem_cons_of_mem _ member, fails⟩

/-- Steps that change a state in turn fail for the first item whose step fails. -/
theorem foldlM_eq_error_iff
    {step : State → Item → Except Refusal State}
    {items : List Item}
    {start : State}
    {refusal : Refusal} :
    items.foldlM step start = .error refusal ↔
      ∃ earlier item later state,
        items = earlier ++ item :: later ∧
          earlier.foldlM step start = .ok state ∧ step state item = .error refusal := by
  constructor
  · intro failed
    induction items generalizing start with
    | nil =>
        cases failed
    | cons first rest inductionHypothesis =>
        rw [List.foldlM_cons, bind_eq_error_iff] at failed
        rcases failed with fails | ⟨next, accepted, failed⟩
        · exact ⟨[], first, rest, start, rfl, rfl, fails⟩
        · obtain ⟨earlier, item, later, state, rfl, reached, fails⟩ :=
            inductionHypothesis failed
          refine ⟨first :: earlier, item, later, state, rfl, ?_, fails⟩
          rw [List.foldlM_cons, accepted]
          exact reached
  · rintro ⟨earlier, item, later, state, rfl, reached, fails⟩
    rw [List.foldlM_append, reached]
    show (step state item >>= fun next => later.foldlM step next) = _
    rw [fails]
    rfl

namespace Plan

/-! ## Nodes that cannot be resolved -/

/-- Why something that refers to tools cannot be resolved. -/
inductive Unresolved (tools : Lookup) (names : List String) : Cause → Prop where
  | emptyCommand : Unresolved tools names (.build .emptyCommand)
  | tool
      {name : String}
      {cause : Cause}
      (refers : name ∈ names)
      (missing : tools name = .error cause) :
      Unresolved tools names cause

theorem Unresolved.mono
    {tools : Lookup}
    {names others : List String}
    {cause : Cause}
    (unresolved : Unresolved tools names cause)
    (included : ∀ name ∈ names, name ∈ others) :
    Unresolved tools others cause := by
  cases unresolved with
  | emptyCommand => exact .emptyCommand
  | tool refers missing => exact .tool (included _ refers) missing

theorem Argument.unresolved
    {tools : Lookup}
    {arguments : List Argument}
    {cause : Cause}
    (fails : arguments.mapM (Argument.resolve tools) = .error cause) :
    Unresolved tools (arguments.filterMap Argument.toolName?) cause := by
  obtain ⟨argument, member, fails⟩ := exists_of_mapM_eq_error fails
  cases argument with
  | piece content =>
      cases fails
  | tool name =>
      exact .tool (List.mem_filterMap.mpr ⟨_, member, rfl⟩)
        (functorMap_eq_error_iff.mp fails)

mutual

theorem Line.unresolved
    {tools : Lookup} :
    ∀ {line : Line} {cause : Cause},
      line.resolve tools = .error cause → Unresolved tools line.toolNames cause
  | .arguments _, _, fails => Argument.unresolved (functorMap_eq_error_iff.mp fails)
  | .shellList _, _, fails => Argument.unresolved (functorMap_eq_error_iff.mp fails)
  | .nested _, _, fails => Sequence.unresolved (functorMap_eq_error_iff.mp fails)
  | .script _, _, fails => nomatch fails

theorem Line.unresolvedAll
    {tools : Lookup} :
    ∀ {lines : List Line} {cause : Cause},
      Line.resolveAll tools lines = .error cause →
        Unresolved tools (Line.toolNamesOf lines) cause
  | [], _, fails => nomatch fails
  | line :: rest, _, fails => by
      rw [Line.resolveAll] at fails
      rcases bind_eq_error_iff.mp fails with first | ⟨_, _, fails⟩
      · exact (Line.unresolved first).mono fun _ => List.mem_append_left _
      · rcases bind_eq_error_iff.mp fails with others | ⟨_, _, ⟨⟩⟩
        exact (Line.unresolvedAll others).mono fun _ => List.mem_append_right _

theorem Sequence.unresolved
    {tools : Lookup} :
    ∀ {sequence : Sequence} {cause : Cause},
      sequence.resolve tools = .error cause → Unresolved tools sequence.toolNames cause
  | .mk lines _, _, fails => by
      rw [Sequence.resolve] at fails
      rcases bind_eq_error_iff.mp fails with inLines | ⟨all, _, fails⟩
      · exact Line.unresolvedAll inLines
      · cases all with
        | nil =>
            cases fails
            exact .emptyCommand
        | cons first rest =>
            cases fails

end

theorem Command.unresolved
    {tools : Lookup}
    {command : Command}
    {cause : Cause}
    (fails : command.resolve tools = .error cause) :
    Unresolved tools command.toolNames cause := by
  cases command with
  | sequence lines => exact Sequence.unresolved fails
  | line single => exact Line.unresolved (functorMap_eq_error_iff.mp fails)

theorem Value.unresolved
    {tools : Lookup}
    {value : Value}
    {cause : Cause}
    (fails : value.resolve tools = .error cause) :
    Unresolved tools value.toolNames cause := by
  cases value with
  | sequence lines => exact Sequence.unresolved (functorMap_eq_error_iff.mp fails)
  | words arguments => exact Argument.unresolved (functorMap_eq_error_iff.mp fails)
  | piece content => cases fails

theorem EdgeEntry.unresolved
    {tools : Lookup}
    {entry : EdgeEntry}
    {cause : Cause}
    (fails : entry.resolve tools = .error cause) :
    Unresolved tools (entry.overrides.values.flatMap Value.toolNames) cause := by
  rcases bind_eq_error_iff.mp fails with inOverrides | ⟨_, _, ⟨⟩⟩
  rcases bind_eq_error_iff.mp inOverrides with inEntries | ⟨_, _, ⟨⟩⟩
  obtain ⟨⟨name, value⟩, member, fails⟩ := exists_of_mapM_eq_error inEntries
  rcases bind_eq_error_iff.mp fails with inValue | ⟨_, _, ⟨⟩⟩
  refine (Value.unresolved inValue).mono fun _ refers => ?_
  exact List.mem_flatMap.mpr ⟨value, List.mem_map_of_mem member, refers⟩

theorem CommandEdgeEntry.unresolved
    {tools : Lookup}
    {entry : CommandEdgeEntry}
    {cause : Cause}
    (fails : entry.resolve tools = .error cause) :
    Unresolved tools entry.command.toolNames cause := by
  rcases bind_eq_error_iff.mp fails with inCommand | ⟨_, _, ⟨⟩⟩
  exact Command.unresolved inCommand

theorem CommandEdgeEntry.operation_eq_error_iff
    {tools : Lookup}
    {entry : CommandEdgeEntry}
    {cause : Cause} :
    entry.operation tools = .error cause ↔ entry.command.resolve tools = .error cause := by
  unfold CommandEdgeEntry.operation CommandEdgeEntry.resolve
  cases entry.command.resolve tools <;> simp [bind, Except.bind, Except.map, pure, Except.pure]

theorem EdgeEntry.outputs_of_resolve
    {tools : Lookup}
    {entry : EdgeEntry}
    {edge : Edge}
    (resolves : entry.resolve tools = .ok edge) :
    edge.outputs = entry.outputs.fragments := by
  obtain ⟨_, _, ⟨⟩⟩ := bind_eq_ok_exists_iff.mp resolves
  rfl

theorem CommandEdgeEntry.outputs_of_resolve
    {tools : Lookup}
    {entry : CommandEdgeEntry}
    {edge : CommandEdge}
    (resolves : entry.resolve tools = .ok edge) :
    edge.outputs = entry.outputs.fragments := by
  obtain ⟨_, _, ⟨⟩⟩ := bind_eq_ok_exists_iff.mp resolves
  rfl

/-- A tool that is referred to and is not known, directly or from the definition of a tool. -/
inductive MissesTool (table : Table String Value) (names : List String) (name : String) :
    Prop where
  | directly
      (refers : name ∈ names)
      (unknown : table.find? name = none) :
      MissesTool table names name
  | inDefinition
      {tool : String}
      {definition : Value}
      (refers : tool ∈ names)
      (isDefinition : table.find? tool = some definition)
      (refersToo : name ∈ definition.toolNames) :
      MissesTool table names name

/-- A node is resolved unless a command is empty or a tool is not known. -/
theorem Unresolved.cause_lookupIn
    {table : Table String Value}
    {names : List String}
    {cause : Cause}
    (unresolved : Unresolved (lookupIn table) names cause) :
    cause = .build .emptyCommand ∨
      ∃ name, cause = .unknownTool name ∧ MissesTool table names name := by
  cases unresolved with
  | emptyCommand =>
      exact .inl rfl
  | tool refers missing =>
      unfold lookupIn at missing
      split at missing
      · next definition isDefinition =>
        -- A definition is resolved where no tool is known.
        cases Value.unresolved missing with
        | emptyCommand =>
            exact .inl rfl
        | tool refersToo unknown =>
            cases unknown
            exact .inr ⟨_, rfl, .inDefinition refers isDefinition refersToo⟩
      · next isUnknown =>
        cases missing
        exact .inr ⟨_, rfl, .directly refers isUnknown⟩

/-! ## Declarations of a plan -/

/-- One of the declarations that a plan lists. -/
inductive Declaration where
  | variableEntry (entry : VariableEntry)
  | ruleEntry (entry : RuleEntry)
  | edgeEntry (entry : EdgeEntry)
  | commandEdgeEntry (entry : CommandEdgeEntry)
  | defaults (targets : List Piece)

namespace Declaration

/-- Declare what is listed. -/
def apply (tools : Lookup) (file : BuildFile) : Declaration → Except Rejection BuildFile
  | .variableEntry entry => applyVariable tools file entry
  | .ruleEntry entry => applyRule tools file entry
  | .edgeEntry entry => applyEdge tools file entry
  | .commandEdgeEntry entry => applyCommandEdge tools file entry
  | .defaults targets => declared .addDefaults (file.addDefaults (Piece.fragments targets))

/-- The operation that a declaration stands for, if it can be resolved. -/
def operation (tools : Lookup) : Declaration → Except Cause Operation
  | .variableEntry entry => entry.operation tools
  | .ruleEntry entry => entry.operation tools
  | .edgeEntry entry => entry.operation tools
  | .commandEdgeEntry entry => entry.operation tools
  | .defaults targets => .ok (.addDefaults (Piece.fragments targets))

/-- The tools that a declaration refers to. -/
def toolNames : Declaration → List String
  | .variableEntry entry => entry.value.toolNames
  | .ruleEntry entry => entry.command.toolNames
  | .edgeEntry entry => entry.overrides.values.flatMap Value.toolNames
  | .commandEdgeEntry entry => entry.command.toolNames
  | .defaults _ => []

/-- What is named where a declaration cannot be resolved. -/
def resolving : Declaration → Option Step
  | .variableEntry entry => some (.resolveVariable entry.name)
  | .ruleEntry entry => some (.resolveRule entry.name)
  | .edgeEntry entry => some (.resolveEdge entry.rule)
  | .commandEdgeEntry _ | .defaults _ => none

/-- What is named where a declaration is not accepted. -/
def declaring : Declaration → Step
  | .variableEntry entry => .declareVariable entry.name
  | .ruleEntry entry => .declareRule entry.name
  | .edgeEntry entry => .declareEdge entry.outputs.fragments
  | .commandEdgeEntry entry => .declareCommandEdge entry.outputs.fragments
  | .defaults _ => .addDefaults

/-- Everything by which a declaration may be named. -/
def steps (declaration : Declaration) : List Step :=
  declaration.resolving.toList ++ [declaration.declaring]

/-- Whether a declaration is a command edge whose command cannot be resolved. -/
def IsUnresolvedCommandEdge (tools : Lookup) (declaration : Declaration) : Prop :=
  ∃ entry cause,
    declaration = .commandEdgeEntry entry ∧ entry.command.resolve tools = .error cause

/-- How a declaration is rejected on a file, and with which report. -/
inductive Rejects
    (table : Table String Value)
    (file : BuildFile)
    (declaration : Declaration) :
    Rejection → Prop where
  | unknownTool
      {name : String}
      (fails : declaration.operation (lookupIn table) = .error (.unknownTool name))
      (misses : MissesTool table declaration.toolNames name) :
      Rejects table file declaration
        { step := declaration.resolving, cause := .unknownTool name }
  | emptyCommand
      (fails : declaration.operation (lookupIn table) = .error (.build .emptyCommand)) :
      Rejects table file declaration
        { step := declaration.resolving, cause := .build .emptyCommand }
  | refused
      {operation : Operation}
      {error : BuildError}
      (resolves : declaration.operation (lookupIn table) = .ok operation)
      (fails : (operation.perform file).1 = .error error) :
      Rejects table file declaration
        { step := some declaration.declaring, cause := .build error }

end Declaration

/-- The declarations of a plan besides its default targets, in the order of application. -/
def listed (plan : Plan) : List Declaration :=
  plan.variableEntries.map .variableEntry ++ (plan.rules.map .ruleEntry ++
    (plan.edges.map .edgeEntry ++ plan.commandEdges.map .commandEdgeEntry))

/-- The declarations of a plan in the order of application; default targets come last. -/
def declarations (plan : Plan) : List Declaration :=
  plan.listed ++ [.defaults plan.defaults]

/-- The same plan with just the first of its declarations. -/
def cutOff (plan : Plan) (count : Nat) : Plan :=
  let rules := count - plan.variableEntries.length
  let edges := rules - plan.rules.length
  let commandEdges := edges - plan.edges.length
  { plan with
    variableEntries := plan.variableEntries.take count
    rules := plan.rules.take rules
    edges := plan.edges.take edges
    commandEdges := plan.commandEdges.take commandEdges
    defaults := [] }

theorem listed_cutOff
    (plan : Plan)
    (count : Nat) :
    (plan.cutOff count).listed = plan.listed.take count := by
  simp [listed, cutOff, List.take_append, List.map_take]

/-- A plan is applied declaration by declaration. -/
theorem buildFile_eq_foldlM
    (plan : Plan)
    (choice : Option Platform) :
    plan.buildFile choice =
      plan.declarations.foldlM (Declaration.apply (lookupIn plan.tools))
        (plan.startFile choice) := by
  simp only [declarations, listed, List.foldlM_append, List.foldlM_map, List.foldlM_cons,
    List.foldlM_nil, bind_assoc, bind_pure]
  rfl

/-- A plan that is cut off is applied up to there. -/
theorem buildFile_cutOff
    (plan : Plan)
    (choice : Option Platform)
    (count : Nat) :
    (plan.cutOff count).buildFile choice =
      (plan.listed.take count).foldlM (Declaration.apply (lookupIn plan.tools))
        (plan.startFile choice) := by
  let tools := lookupIn plan.tools
  have noDefaults : ∀ file : BuildFile,
      [Declaration.defaults []].foldlM (Declaration.apply tools) file = .ok file := by
    intro file
    simp [Declaration.apply, declared, BuildFile.addDefaults, Piece.fragments,
      Fragment.checkAll]
  rw [buildFile_eq_foldlM, declarations, listed_cutOff, List.foldlM_append]
  show ((plan.listed.take count).foldlM (Declaration.apply tools) (plan.startFile choice) >>=
    [Declaration.defaults []].foldlM (Declaration.apply tools)) = _
  rw [funext noDefaults]
  exact bind_pure _

theorem resolved_eq_error_iff
    {step : Option Step}
    {outcome : Except Cause Result}
    {rejection : Rejection} :
    resolved step outcome = .error rejection ↔
      ∃ cause, outcome = .error cause ∧ rejection = { step, cause } := by
  cases outcome <;> simp [resolved, Except.mapError, eq_comm]

theorem declared_eq_error_iff
    {step : Step}
    {outcome : Except BuildError Result × BuildFile}
    {rejection : Rejection} :
    declared step outcome = .error rejection ↔
      ∃ error,
        outcome.1 = .error error ∧ rejection = { step := some step, cause := .build error } := by
  rcases outcome with ⟨_ | _, later⟩ <;> simp [declared, eq_comm]

namespace Declaration

/-- What resolves a node and then declares the outcome fails just by such a rejection. -/
theorem rejects_of_declared
    {table : Table String Value}
    {file : BuildFile}
    {declaration : Declaration}
    {resolve : Except Cause Item}
    {behind : Item → Step}
    (declare : Item → Except BuildError Result × BuildFile)
    (operationOf : Item → Operation)
    (isOperation : declaration.operation (lookupIn table) = resolve.map operationOf)
    (reason : ∀ cause,
      resolve = .error cause → Unresolved (lookupIn table) declaration.toolNames cause)
    (named : ∀ item, resolve = .ok item → behind item = declaration.declaring)
    (refuses : ∀ item error,
      (declare item).1 = .error error → ((operationOf item).perform file).1 = .error error)
    {rejection : Rejection}
    (failed :
      (resolved declaration.resolving resolve >>= fun item =>
        declared (behind item) (declare item)) = .error rejection) :
    declaration.Rejects table file rejection := by
  rcases bind_eq_error_iff.mp failed with unresolved | ⟨item, resolves, failed⟩
  · obtain ⟨cause, fails, rfl⟩ := resolved_eq_error_iff.mp unresolved
    have noOperation : declaration.operation (lookupIn table) = .error cause := by
      rw [isOperation, fails]
      rfl
    rcases (reason cause fails).cause_lookupIn with rfl | ⟨name, rfl, misses⟩
    · exact .emptyCommand noOperation
    · exact .unknownTool noOperation misses
  · rw [resolved_eq_ok_iff] at resolves
    obtain ⟨error, fails, rfl⟩ := declared_eq_error_iff.mp failed
    have operates : declaration.operation (lookupIn table) = .ok (operationOf item) := by
      rw [isOperation, resolves]
      rfl
    rw [named item resolves]
    exact .refused operates (refuses item error fails)

/-- A declaration that fails on a file is rejected there. -/
theorem rejects_of_apply
    {table : Table String Value}
    {file : BuildFile}
    {declaration : Declaration}
    {rejection : Rejection}
    (failed : declaration.apply (lookupIn table) file = .error rejection) :
    declaration.Rejects table file rejection := by
  cases declaration with
  | variableEntry entry =>
      let declare := fun value =>
        file.declareVariable (.ofString entry.name) value entry.group entry.acceptExisting
      let operationOf := fun value =>
        Operation.declareVariable (.ofString entry.name) value entry.group entry.acceptExisting
      exact rejects_of_declared declare operationOf rfl (fun _ => Value.unresolved)
        (fun _ _ => rfl) (fun _ _ => congrArg (Except.map fun _ => ())) failed
  | ruleEntry entry =>
      let declare := fun command => file.declareRule entry.name command entry.options
      let operationOf := fun command => Operation.declareRule entry.name command entry.options
      exact rejects_of_declared declare operationOf rfl (fun _ => Command.unresolved)
        (fun _ _ => rfl) (fun _ _ => id) failed
  | edgeEntry entry =>
      exact rejects_of_declared file.declareEdge .declareEdge rfl
        (fun _ => EdgeEntry.unresolved)
        (fun _ resolves => congrArg Step.declareEdge (EdgeEntry.outputs_of_resolve resolves))
        (fun _ _ => id) failed
  | commandEdgeEntry entry =>
      exact rejects_of_declared file.declareCommandEdge .declareCommandEdge rfl
        (fun _ => CommandEdgeEntry.unresolved)
        (fun _ resolves =>
          congrArg Step.declareCommandEdge (CommandEdgeEntry.outputs_of_resolve resolves))
        (fun _ _ => id) failed
  | defaults targets =>
      obtain ⟨error, fails, rfl⟩ := declared_eq_error_iff.mp failed
      exact .refused rfl fails

/-- A declaration that cannot be resolved is named, unless it is a command edge. -/
theorem chain_iff_of_unresolved
    {tools : Lookup}
    {declaration : Declaration}
    {cause : Cause}
    (fails : declaration.operation tools = .error cause) :
    (∃ step ∈ declaration.steps,
        Rejection.chain { step := declaration.resolving, cause } =
          [step.message, cause.message]) ↔
      ¬ declaration.IsUnresolvedCommandEdge tools := by
  have ofNamed {step : Step} (named : declaration.resolving = some step) :
      ∃ step ∈ declaration.steps,
        Rejection.chain { step := declaration.resolving, cause } =
          [step.message, cause.message] := by
    refine ⟨step, ?_, ?_⟩
    · simp [steps, named]
    · simp [Rejection.chain, named]
  cases declaration with
  | variableEntry entry =>
      exact iff_of_true (ofNamed rfl) (by rintro ⟨_, _, ⟨⟩, _⟩)
  | ruleEntry entry =>
      exact iff_of_true (ofNamed rfl) (by rintro ⟨_, _, ⟨⟩, _⟩)
  | edgeEntry entry =>
      exact iff_of_true (ofNamed rfl) (by rintro ⟨_, _, ⟨⟩, _⟩)
  | commandEdgeEntry entry =>
      have unresolved := CommandEdgeEntry.operation_eq_error_iff.mp fails
      refine iff_of_false ?_ (not_not_intro ⟨entry, cause, rfl, unresolved⟩)
      rintro ⟨step, _, isChain⟩
      simp [Rejection.chain, resolving] at isChain
  | defaults targets =>
      cases fails

/-- A rejected declaration is named, unless it is a command edge that cannot be resolved. -/
theorem Rejects.chain_iff
    {table : Table String Value}
    {file : BuildFile}
    {declaration : Declaration}
    {rejection : Rejection}
    (rejects : declaration.Rejects table file rejection) :
    (∃ step ∈ declaration.steps,
        rejection.chain = [step.message, rejection.cause.message]) ↔
      ¬ declaration.IsUnresolvedCommandEdge (lookupIn table) := by
  cases rejects with
  | unknownTool fails _ =>
      exact chain_iff_of_unresolved fails
  | emptyCommand fails =>
      exact chain_iff_of_unresolved fails
  | refused resolves _ =>
      refine iff_of_true ⟨declaration.declaring, by simp [steps], rfl⟩ ?_
      rintro ⟨entry, cause, rfl, unresolved⟩
      cases resolves.symm.trans (CommandEdgeEntry.operation_eq_error_iff.mpr unresolved)

end Declaration

/-! ## Rejected plans -/

/--
A plan that is rejected is rejected for its first declaration that is not accepted: cut off in
front of it the plan is accepted, and the file it has there rejects the declaration, for a
tool that is not known, an empty command or an error of the operation, which is the last
message.  The message in front of it names the declaration, unless that is a command edge whose
command cannot be resolved.
-/
theorem rejected_named_iff
    {plan : Plan}
    {choice : Option Platform}
    {rejection : Rejection}
    (rejected : plan.buildFile choice = .error rejection) :
    ∃ earlier declaration later file,
      plan.declarations = earlier ++ declaration :: later ∧
      (plan.cutOff earlier.length).buildFile choice = .ok file ∧
      declaration.Rejects plan.tools file rejection ∧
      ((∃ step ∈ declaration.steps,
          rejection.chain = [step.message, rejection.cause.message]) ↔
        ¬ declaration.IsUnresolvedCommandEdge (lookupIn plan.tools)) := by
  rw [buildFile_eq_foldlM, foldlM_eq_error_iff] at rejected
  obtain ⟨earlier, declaration, later, file, inOrder, reached, fails⟩ := rejected
  have rejects := Declaration.rejects_of_apply fails
  refine ⟨earlier, declaration, later, file, inOrder, ?_, rejects, rejects.chain_iff⟩
  have isCutOff : plan.listed.take earlier.length = earlier := by
    have lengths := congrArg List.length inOrder
    simp only [declarations, List.length_append, List.length_cons, List.length_nil] at lengths
    have firsts := congrArg (List.take earlier.length) inOrder
    rwa [declarations, List.take_append_of_le_length (by omega), List.take_left] at firsts
  rw [buildFile_cutOff, isCutOff]
  exact reached

/-- An edge for a rule that nobody declared is named by its outputs. -/
theorem rejected_named_unknownRule :
    let plan : Plan :=
      { source := "build.bfg"
        platform := some .linux
        minimumVersion := none
        tools := .empty
        variableEntries :=
          [{ name := "cflags", value := .piece (.text "-O2"), group := .flags,
             acceptExisting := false }]
        rules := []
        edges :=
          [{ outputs := .one (.text "a.o"), rule := "cc", inputs := .many [],
             implicit := .many [], orderOnly := .many [], overrides := .empty }]
        commandEdges := []
        defaults := [.text "a.o"] }
    let rejection : Rejection :=
      { step := some (.declareEdge [.plain "a.o"]), cause := .build (.unknownRule "cc") }
    plan.buildFile none = .error rejection ∧
      rejection.chain = ["failed to declare build a.o", "unknown rule \"cc\""] ∧
      ∃ earlier declaration later file,
        plan.declarations = earlier ++ declaration :: later ∧
        (plan.cutOff earlier.length).buildFile none = .ok file ∧
        declaration.Rejects plan.tools file rejection ∧
        ((∃ step ∈ declaration.steps,
            rejection.chain = [step.message, rejection.cause.message]) ↔
          ¬ declaration.IsUnresolvedCommandEdge (lookupIn plan.tools)) :=
  ⟨rfl, by decide, rejected_named_iff rfl⟩

/-- Nothing names a command edge whose command is empty. -/
theorem rejected_notNamed_emptyCommand :
    let plan : Plan :=
      { source := "build.bfg"
        platform := some .linux
        minimumVersion := none
        tools := .empty
        variableEntries := []
        rules := []
        edges := []
        commandEdges :=
          [{ outputs := .one (.text "install"), command := .sequence (.mk [] .empty),
             inputs := .many [], implicit := .many [], orderOnly := .many [],
             console := true }]
        defaults := [] }
    ∃ rejection,
      plan.buildFile none = .error rejection ∧
        rejection.chain = ["expected at least one command"] :=
  ⟨{ step := none, cause := .build .emptyCommand }, rfl, rfl⟩

end Plan

end BuildGraph
