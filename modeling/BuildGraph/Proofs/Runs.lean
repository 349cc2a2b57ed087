import BuildGraph.Proofs.Consistency
import BuildGraph.Proofs.SharedEntries
import Mathlib.Data.List.Pairwise

namespace BuildGraph

/-!
# Runs of operations

A file only gets longer behind what it holds already.  Which rules and edges a run leaves is
told by the operations that were accepted in it, and by the command edges that were tried:
what these share with others stays even where they are rejected themselves.
-/

/-- Whether an operation is accepted on a file. -/
def Operation.isAccepted (operation : Operation) (file : BuildFile) : Bool :=
  (operation.perform file).1.isOk

/-- The rule that an operation declares where it is accepted. -/
def Operation.rule? : Operation → Option Rule
  | .declareRule name command options =>
      (Pool.ofName (options.pool.getD "")).toOption.map
        (.ofDeclaration name command options)
  | _ => none

/-- The edge that an operation declares where it is accepted. -/
def Operation.edge? : Operation → Option Edge
  | .declareEdge edge => some edge.withReferences
  | .declareCommandEdge edge => some (BuildFile.edgeFor edge).withReferences
  | _ => none

namespace BuildFile

/-- The operations of a run that are accepted, in order. -/
def accepted : List Operation → BuildFile → List Operation
  | [], _ => []
  | operation :: rest, file =>
      (if operation.isAccepted file then [operation] else []) ++
        accepted rest (operation.perform file).2

theorem run_cons
    (operation : Operation)
    (rest : List Operation)
    (file : BuildFile) :
    run (operation :: rest) file = run rest (operation.perform file).2 :=
  rfl

theorem run_append
    (earlier later : List Operation)
    (file : BuildFile) :
    run (earlier ++ later) file = run later (run earlier file) := by
  simp [run]

theorem accepted_append
    (earlier later : List Operation)
    (file : BuildFile) :
    accepted (earlier ++ later) file =
      accepted earlier file ++ accepted later (run earlier file) := by
  induction earlier generalizing file with
  | nil =>
      rfl
  | cons operation rest inductionHypothesis =>
      rw [List.cons_append, accepted, accepted, inductionHypothesis, run_cons,
        List.append_assoc]

theorem mem_accepted_cons_iff
    {operation first : Operation}
    {rest : List Operation}
    {file : BuildFile} :
    operation ∈ accepted (first :: rest) file ↔
      (operation = first ∧ first.isAccepted file = true) ∨
        operation ∈ accepted rest (first.perform file).2 := by
  rw [accepted, List.mem_append]
  cases first.isAccepted file <;> simp

/-! ## Names in a file -/

theorem hasRule_iff
    {file : BuildFile}
    {name : String} :
    file.hasRule name = true ↔ ∃ rule ∈ file.rules, rule.name = name := by
  rw [hasRule, List.contains_iff_mem, ruleNames, List.mem_map]

/-- Rules of one name in a consistent file are the same. -/
theorem ConsistentGraph.rule_eq_of_name_eq
    {file : BuildFile}
    (consistent : file.ConsistentGraph)
    {first second : Rule}
    (firstMember : first ∈ file.rules)
    (secondMember : second ∈ file.rules)
    (sameName : first.name = second.name) :
    first = second :=
  List.inj_on_of_nodup_map consistent.rulesDistinct firstMember secondMember sameName

/-- Edges of a consistent file that build the same output are the same. -/
theorem ConsistentGraph.edge_eq_of_mem_outputs
    {file : BuildFile}
    (consistent : file.ConsistentGraph)
    {first second : Edge}
    (firstMember : first ∈ file.edges)
    (secondMember : second ∈ file.edges)
    {output : Fragment}
    (builtFirst : output ∈ first.outputs)
    (builtSecond : output ∈ second.outputs) :
    first = second := by
  by_contra different
  have apart := (List.nodup_flatMap.mp consistent.outputsDistinct).2
  have symmetric : Std.Symm (Function.onFun List.Disjoint Edge.outputs) :=
    ⟨fun _ _ disjoint _ inSecond inFirst => disjoint inFirst inSecond⟩
  exact apart.forall firstMember secondMember different builtFirst builtSecond

/-! ## Nothing is lost -/

/-- What a command edge shares with others is added to a file. -/
theorem Grows.withSharedEntries
    (file : BuildFile)
    (console : Bool) :
    file.Grows (file.withSharedEntries console) := by
  have rule : file.Grows (file.declareSharedRule console).2 := by
    unfold declareSharedRule
    split
    · exact .refl file
    · exact .declareRule file _ _ _
  rw [declareSharedRule_eq] at rule
  have edge :
      (file.withSharedRule console).Grows
        (file.withSharedRule console).declareAlwaysOutdated.2 := by
    unfold declareAlwaysOutdated
    split
    · exact .refl _
    · exact .declareEdge _ _
  rw [declareAlwaysOutdated_eq] at edge
  exact rule.trans edge

/-- A run does nothing but add. -/
theorem Grows.run
    (file : BuildFile)
    (operations : List Operation) :
    file.Grows (run operations file) := by
  induction operations generalizing file with
  | nil =>
      exact .refl file
  | cons operation rest inductionHypothesis =>
      exact (perform file operation).trans (inductionHypothesis _)

/-- A file and a later state of it, which holds everything the file holds at its place. -/
structure Extends (file later : BuildFile) : Prop where
  source : later.source = file.source
  target : later.target = file.target
  assignments : ∀ group, file.assignmentsOf group <+: later.assignmentsOf group
  rules : file.rules <+: later.rules
  edges : file.edges <+: later.edges
  defaults : file.defaults <+: later.defaults
  hasVariable : ∀ var, file.hasVariable var = true → later.hasVariable var = true
  hasRule : ∀ name, file.hasRule name = true → later.hasRule name = true
  hasBuild : ∀ output, file.hasBuild output = true → later.hasBuild output = true

namespace Extends

theorem refl
    (file : BuildFile) :
    file.Extends file where
  source := rfl
  target := rfl
  assignments := fun _ => List.prefix_refl _
  rules := List.prefix_refl _
  edges := List.prefix_refl _
  defaults := List.prefix_refl _
  hasVariable := fun _ => id
  hasRule := fun _ => id
  hasBuild := fun _ => id

theorem trans
    {file middle later : BuildFile}
    (first : file.Extends middle)
    (second : middle.Extends later) :
    file.Extends later where
  source := second.source.trans first.source
  target := second.target.trans first.target
  assignments := fun group => (first.assignments group).trans (second.assignments group)
  rules := first.rules.trans second.rules
  edges := first.edges.trans second.edges
  defaults := first.defaults.trans second.defaults
  hasVariable := fun var known => second.hasVariable var (first.hasVariable var known)
  hasRule := fun name known => second.hasRule name (first.hasRule name known)
  hasBuild := fun output known => second.hasBuild output (first.hasBuild output known)

/-- Every list of an addition is the old one, or the old one with something behind it. -/
theorem adds
    {file later : BuildFile}
    (adds : file.Adds later) :
    file.Extends later := by
  cases adds with
  | assignment _ _ =>
      refine { refl file with assignments := ?_, hasVariable := ?_ }
      · intro group
        exact (List.prefix_append _ _).filter _
      · intro var known
        simp only [BuildFile.hasVariable, List.contains_iff_mem] at known ⊢
        exact List.mem_append_left _ known
  | version version =>
      obtain ⟨required, shape⟩ := file.requireVersion_eq version
      rw [shape]
      exact { refl file with }
  | rule _ _ =>
      refine { refl file with rules := List.prefix_append _ _, hasRule := ?_ }
      intro name known
      obtain ⟨rule, member, named⟩ := hasRule_iff.mp known
      exact hasRule_iff.mpr ⟨rule, List.mem_append_left _ member, named⟩
  | edge _ _ _ =>
      refine { refl file with edges := List.prefix_append _ _, hasBuild := ?_ }
      intro output known
      simp only [BuildFile.hasBuild, List.contains_iff_mem] at known ⊢
      exact List.mem_append_left _ known
  | defaults _ =>
      exact { refl file with defaults := List.prefix_append _ _ }

theorem grows
    {file later : BuildFile}
    (grows : file.Grows later) :
    file.Extends later :=
  grows.induct (fun extended adds => extended.trans (.adds adds)) (.refl file)

theorem perform
    (file : BuildFile)
    (operation : Operation) :
    file.Extends (operation.perform file).2 :=
  .grows (.perform file operation)

theorem run
    (operations : List Operation)
    (file : BuildFile) :
    file.Extends (run operations file) :=
  .grows (.run file operations)

end Extends

/-! ## What an operation adds -/

/-- The rules that command edges bring to a file. -/
def broughtRules (file : BuildFile) : Operation → List Rule
  | .declareCommandEdge edge =>
      if file.hasRule (sharedRule edge.console) then []
      else [sharedRuleEntry edge.console]
  | _ => []

/-- The edges that command edges bring to a file, besides their own. -/
def broughtEdges (file : BuildFile) : Operation → List Edge
  | .declareCommandEdge _ =>
      if file.hasBuild alwaysOutdated then [] else [outdatedEdge]
  | _ => []

/-- What an operation adds to the rules and edges of a file. -/
structure AddsEntries (file later : BuildFile) (rules : List Rule) (edges : List Edge) :
    Prop where
  rules : later.rules = file.rules ++ rules
  edges : later.edges = file.edges ++ edges

theorem AddsEntries.of_agrees
    {file later : BuildFile}
    (agrees : AgreesBesidesVariables file later) :
    AddsEntries file later [] [] :=
  ⟨by simp [agrees.rules], by simp [agrees.edges]⟩

/-- Declaring an edge adds just this edge if it is accepted, and nothing otherwise. -/
theorem addsEntries_declareEdge
    (file : BuildFile)
    (edge : Edge) :
    AddsEntries file (file.declareEdge edge).2 []
      (if (file.declareEdge edge).1.isOk then [edge.withReferences] else []) := by
  rcases file.declareEdge_cases edge with ⟨error, rejected⟩ | ⟨accepts, _⟩
  · rw [rejected]
    exact .of_agrees (.refl file)
  · have agrees := file.agreesBesidesVariables_interned (toolsOfEdge edge)
    rw [declareEdge_of_accepts accepts]
    exact
      { rules := by simp [withEdge, agrees.rules]
        edges := congrArg (· ++ [edge.withReferences]) agrees.edges }

theorem addsEntries_declareRule
    (file : BuildFile)
    (name : String)
    (command : Commands)
    (options : RuleOptions) :
    AddsEntries file (file.declareRule name command options).2
      (if (file.declareRule name command options).1.isOk then
        (Operation.declareRule name command options).rule?.toList
      else [])
      [] := by
  rcases file.declareRule_cases name command options with
    ⟨error, rejected⟩ | ⟨pool, accepts, _⟩
  · rw [rejected]
    exact .of_agrees (.refl file)
  · have agrees := file.agreesBesidesVariables_interned command.tools
    obtain ⟨required, shape⟩ := (file.interned command.tools).requirePool_eq pool
    have declared :
        (Operation.declareRule name command options).rule? =
          some (.ofDeclaration name command options pool) := by
      rw [Operation.rule?, accepts.knownPool]
      rfl
    rw [declareRule_of_accepts accepts, declared, shape]
    exact
      { rules := congrArg (· ++ [_]) agrees.rules
        edges := by simp [withRule, agrees.edges] }

/-- The shared entries are added where their names are free. -/
theorem addsEntries_withSharedEntries
    (file : BuildFile)
    (edge : CommandEdge) :
    AddsEntries file (file.withSharedEntries edge.console)
      (file.broughtRules (.declareCommandEdge edge))
      (file.broughtEdges (.declareCommandEdge edge)) := by
  rw [withSharedEntries_eq]
  exact ⟨rfl, rfl⟩

/--
An operation adds the rule or the edge that it declares if it is accepted, behind what command
edges bring in any case.
-/
theorem addsEntries_perform
    (file : BuildFile)
    (operation : Operation) :
    AddsEntries file (operation.perform file).2
      (file.broughtRules operation ++
        if operation.isAccepted file then operation.rule?.toList else [])
      (file.broughtEdges operation ++
        if operation.isAccepted file then operation.edge?.toList else []) := by
  -- Of most operations neither kind of entry is to be expected.
  have nothing
      (later : AddsEntries file (operation.perform file).2 [] [])
      (noRule : operation.rule? = none)
      (noEdge : operation.edge? = none)
      (noRules : file.broughtRules operation = [])
      (noEdges : file.broughtEdges operation = []) :
      AddsEntries file (operation.perform file).2
        (file.broughtRules operation ++
          if operation.isAccepted file then operation.rule?.toList else [])
        (file.broughtEdges operation ++
          if operation.isAccepted file then operation.edge?.toList else []) := by
    simpa [noRule, noEdge, noRules, noEdges] using later
  cases operation with
  | declareVariable var value group acceptExisting =>
      have agrees :=
        (AgreesBesidesVariables.refl file).declareVariable var value group acceptExisting
      exact nothing (.of_agrees agrees) rfl rfl rfl rfl
  | internTool tool =>
      have agrees :=
        (AgreesBesidesVariables.refl file).declareVariable
          tool.holder tool.invocation .command true
      exact nothing (.of_agrees agrees) rfl rfl rfl rfl
  | declareRule name command options =>
      have added := file.addsEntries_declareRule name command options
      refine ⟨added.rules, ?_⟩
      simpa [Operation.perform, broughtEdges, Operation.edge?] using added.edges
  | declareEdge edge =>
      have added := file.addsEntries_declareEdge edge
      refine ⟨?_, added.edges⟩
      simpa [Operation.perform, broughtRules, Operation.rule?] using added.rules
  | declareCommandEdge edge =>
      have shared := file.addsEntries_withSharedEntries edge
      have own :=
        (file.withSharedEntries edge.console).addsEntries_declareEdge (edgeFor edge)
      rw [← declareCommandEdge_eq] at own
      refine ⟨?_, ?_⟩
      · rw [Operation.perform, own.rules, shared.rules]
        simp [Operation.rule?]
      · rw [Operation.perform, own.edges, shared.edges, List.append_assoc]
        rfl
  | addDefaults targets =>
      have same : AddsEntries file (file.addDefaults targets).2 [] [] := by
        rcases file.addDefaults_cases targets with unchanged | ⟨_, added⟩
        · rw [unchanged]
          exact .of_agrees (.refl file)
        · rw [added]
          exact ⟨by simp, by simp⟩
      exact nothing same rfl rfl rfl rfl
  | requireVersion version =>
      obtain ⟨required, shape⟩ := file.requireVersion_eq version
      have same : AddsEntries file (file.requireVersion version) [] [] := by
        rw [shape]
        exact ⟨by simp, by simp⟩
      exact nothing same rfl rfl rfl rfl

theorem perform_eq_ok_of_isAccepted
    {operation : Operation}
    {file : BuildFile}
    (isAccepted : operation.isAccepted file = true) :
    (operation.perform file).1 = .ok () := by
  unfold Operation.isAccepted at isAccepted
  rcases outcome : (operation.perform file).1 with error | ⟨⟩
  · rw [outcome] at isAccepted
    cases isAccepted
  · rfl

/-- An accepted command edge is an accepted edge behind the entries that it shares. -/
theorem acceptsEdge_of_isAccepted
    {file : BuildFile}
    {edge : CommandEdge}
    (isAccepted : (Operation.declareCommandEdge edge).isAccepted file = true) :
    (file.withSharedEntries edge.console).AcceptsEdge (edgeFor edge) := by
  have declared := perform_eq_ok_of_isAccepted isAccepted
  rw [Operation.perform, declareCommandEdge_eq] at declared
  exact acceptsEdge_of_declareEdge declared

/-! ## What a run leaves -/

/-- A command edge that is accepted does not build the target that is never up to date. -/
theorem alwaysOutdated_notMem_outputs
    {file : BuildFile}
    {edge : CommandEdge}
    (isAccepted : (Operation.declareCommandEdge edge).isAccepted file = true) :
    alwaysOutdated ∉ edge.outputs := by
  have accepts := acceptsEdge_of_isAccepted isAccepted
  have taken := (file.withSharedRule edge.console).alwaysOutdated_mem_knownOutputs
  intro builds
  exact accepts.fresh alwaysOutdated builds taken

/-- What is accepted in a run is accepted on some file, of which the run keeps the outcome. -/
theorem exists_of_mem_accepted
    {operation : Operation}
    {operations : List Operation}
    {file : BuildFile}
    (member : operation ∈ accepted operations file) :
    ∃ current : BuildFile,
      operation.isAccepted current = true ∧
        (operation.perform current).2.Extends (run operations file) := by
  induction operations generalizing file with
  | nil =>
      cases member
  | cons first rest inductionHypothesis =>
      rcases mem_accepted_cons_iff.mp member with ⟨rfl, now⟩ | later
      · exact ⟨file, now, .run rest _⟩
      · exact inductionHypothesis later

/-- What an accepted declaration of a rule is kept as. -/
theorem rule?_of_mem_accepted
    {name : String}
    {command : Commands}
    {options : RuleOptions}
    {operations : List Operation}
    {file : BuildFile}
    (member : .declareRule name command options ∈ accepted operations file) :
    ∃ pool,
      Pool.ofName (options.pool.getD "") = .ok pool ∧
        (Operation.declareRule name command options).rule? =
          some (.ofDeclaration name command options pool) := by
  obtain ⟨current, isAccepted, _⟩ := exists_of_mem_accepted member
  obtain ⟨pool, accepts⟩ :=
    acceptsRule_of_declareRule (perform_eq_ok_of_isAccepted isAccepted)
  refine ⟨pool, accepts.knownPool, ?_⟩
  rw [Operation.rule?, accepts.knownPool]
  rfl

theorem mem_rules_run_of_accepted
    {operation : Operation}
    {operations : List Operation}
    {file : BuildFile}
    (member : operation ∈ accepted operations file)
    {rule : Rule}
    (declares : operation.rule? = some rule) :
    rule ∈ (run operations file).rules := by
  obtain ⟨current, isAccepted, kept⟩ := exists_of_mem_accepted member
  apply kept.rules.subset
  rw [(current.addsEntries_perform operation).rules, if_pos isAccepted, declares]
  simp

theorem mem_edges_run_of_accepted
    {operation : Operation}
    {operations : List Operation}
    {file : BuildFile}
    (member : operation ∈ accepted operations file)
    {edge : Edge}
    (declares : operation.edge? = some edge) :
    edge ∈ (run operations file).edges := by
  obtain ⟨current, isAccepted, kept⟩ := exists_of_mem_accepted member
  apply kept.edges.subset
  rw [(current.addsEntries_perform operation).edges, if_pos isAccepted, declares]
  simp

/-- Behind the entries that command edges share, the name of their rule is taken. -/
theorem hasRule_withSharedEntries
    (file : BuildFile)
    (console : Bool) :
    (file.withSharedEntries console).hasRule (sharedRule console) = true := by
  rw [withSharedEntries_eq, hasRule_iff]
  by_cases taken : file.hasRule (sharedRule console) = true
  · obtain ⟨rule, member, named⟩ := hasRule_iff.mp taken
    exact ⟨rule, List.mem_append_left _ member, named⟩
  · exact ⟨sharedRuleEntry console, by simp [taken], rfl⟩

/-- Behind a command edge, accepted or not, the name of its rule is taken. -/
theorem hasRule_declareCommandEdge
    (file : BuildFile)
    (edge : CommandEdge) :
    (file.declareCommandEdge edge).2.hasRule (sharedRule edge.console) = true := by
  rw [declareCommandEdge_eq]
  exact (Extends.grows (.declareEdge _ (edgeFor edge))).hasRule _
    (file.hasRule_withSharedEntries edge.console)

/-- Behind a command edge, accepted or not, the target that is never up to date is built. -/
theorem hasBuild_declareCommandEdge
    (file : BuildFile)
    (edge : CommandEdge) :
    (file.declareCommandEdge edge).2.hasBuild alwaysOutdated = true := by
  rw [declareCommandEdge_eq]
  apply (Extends.grows (.declareEdge _ (edgeFor edge))).hasBuild
  rw [hasBuild, List.contains_iff_mem]
  exact (file.withSharedRule edge.console).alwaysOutdated_mem_knownOutputs

theorem hasRule_run_of_commandEdge
    {edge : CommandEdge}
    {operations : List Operation}
    (tried : .declareCommandEdge edge ∈ operations)
    (file : BuildFile) :
    (run operations file).hasRule (sharedRule edge.console) = true := by
  induction operations generalizing file with
  | nil =>
      cases tried
  | cons first rest inductionHypothesis =>
      rcases List.mem_cons.mp tried with rfl | later
      · exact (Extends.run rest _).hasRule _ (file.hasRule_declareCommandEdge edge)
      · exact inductionHypothesis later _

/-- A rule that a run leaves was declared by an accepted operation or by a command edge. -/
theorem mem_rules_run
    {operations : List Operation}
    {file : BuildFile}
    {rule : Rule}
    (member : rule ∈ (run operations file).rules) :
    rule ∈ file.rules ∨
      (∃ operation ∈ accepted operations file, operation.rule? = some rule) ∨
        ∃ edge,
          .declareCommandEdge edge ∈ operations ∧ rule = sharedRuleEntry edge.console := by
  induction operations generalizing file with
  | nil =>
      exact .inl member
  | cons first rest inductionHypothesis =>
      -- What the rest of the run finds in its own file was there before, or is the first's.
      rcases inductionHypothesis member with before | ⟨operation, later, declares⟩ |
        ⟨edge, tried, shared⟩
      · rw [(file.addsEntries_perform first).rules] at before
        rcases List.mem_append.mp before with old | added
        · exact .inl old
        · rcases List.mem_append.mp added with brought | declared
          · cases first <;> simp only [broughtRules, List.not_mem_nil] at brought
            rename_i edge
            have isShared : rule = sharedRuleEntry edge.console := by
              split at brought
              · cases brought
              · exact List.mem_singleton.mp brought
            exact .inr (.inr ⟨edge, List.mem_cons_self, isShared⟩)
          · obtain ⟨now, declares⟩ := List.mem_ite_nil_right.mp declared
            refine .inr (.inl ⟨first, mem_accepted_cons_iff.mpr (.inl ⟨rfl, now⟩), ?_⟩)
            exact Option.mem_toList.mp declares
      · exact .inr (.inl ⟨operation, mem_accepted_cons_iff.mpr (.inr later), declares⟩)
      · exact .inr (.inr ⟨edge, List.mem_cons_of_mem _ tried, shared⟩)

/-- A rule of the shared name was declared by an accepted operation, or it is the shared one. -/
theorem mem_rules_run_empty_of_sharedName
    {source : String}
    {target : Target}
    {operations : List Operation}
    {rule : Rule}
    {console : Bool}
    (member : rule ∈ (run operations (empty source target)).rules)
    (named : rule.name = sharedRule console) :
    (∃ operation ∈ accepted operations (empty source target),
        operation.rule? = some rule) ∨
      rule = sharedRuleEntry console := by
  rcases mem_rules_run member with old | declared | ⟨edge, _, rfl⟩
  · cases old
  · exact .inl declared
  · obtain rfl := sharedRule_inj named
    exact .inr rfl

/-- An edge that a run leaves was declared by an accepted operation or is the shared one. -/
theorem mem_edges_run
    {operations : List Operation}
    {file : BuildFile}
    {edge : Edge}
    (member : edge ∈ (run operations file).edges) :
    edge ∈ file.edges ∨
      (∃ operation ∈ accepted operations file,
        operation.edge? = some edge ∧
          ∀ own, operation = .declareCommandEdge own → alwaysOutdated ∉ own.outputs) ∨
        edge = outdatedEdge := by
  induction operations generalizing file with
  | nil =>
      exact .inl member
  | cons first rest inductionHypothesis =>
      rcases inductionHypothesis member with before | ⟨operation, later, declares⟩ | shared
      · rw [(file.addsEntries_perform first).edges] at before
        rcases List.mem_append.mp before with old | added
        · exact .inl old
        · rcases List.mem_append.mp added with brought | declared
          · cases first <;> simp only [broughtEdges, List.not_mem_nil] at brought
            split at brought
            · cases brought
            · exact .inr (.inr (List.mem_singleton.mp brought))
          · obtain ⟨now, declares⟩ := List.mem_ite_nil_right.mp declared
            refine .inr (.inl ⟨first, mem_accepted_cons_iff.mpr (.inl ⟨rfl, now⟩), ?_, ?_⟩)
            · exact Option.mem_toList.mp declares
            · rintro own rfl
              exact alwaysOutdated_notMem_outputs now
      · exact .inr (.inl ⟨operation, mem_accepted_cons_iff.mpr (.inr later), declares⟩)
      · exact .inr (.inr shared)

end BuildFile

end BuildGraph
