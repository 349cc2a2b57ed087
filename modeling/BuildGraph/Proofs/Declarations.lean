import BuildGraph.File.Operation
import BuildGraph.Proofs.Conversion

namespace BuildGraph

/-!
# What a declaration does to a file

Each kind of declaration is described once: under which conditions it is accepted, which
file an accepted one leaves behind, and that a rejected one changes nothing.  What holds of
files after any run of operations is derived from these descriptions alone.
-/

/-- A condition that is thrown upon is one that does not hold where the rest succeeds. -/
theorem ite_throw_eq_ok_iff
    {condition : Prop}
    [Decidable condition]
    {refusal : Refusal}
    {next : PUnit → Except Refusal Result}
    {result : Result} :
    (if condition then (throw refusal : Except Refusal PUnit) >>= next
      else next ⟨⟩) = .ok result ↔
      ¬ condition ∧ next ⟨⟩ = .ok result := by
  by_cases holds : condition
  · simp [holds, throw, throwThe, MonadExceptOf.throw, bind, Except.bind]
  · simp [holds]

theorem bind_eq_ok_exists_iff
    {first : Except Refusal Item}
    {next : Item → Except Refusal Result}
    {result : Result} :
    first >>= next = .ok result ↔
      ∃ item, first = .ok item ∧ next item = .ok result := by
  cases first with
  | error refusal => simp [bind, Except.bind]
  | ok item => simp [bind, Except.bind]

theorem bind_eq_error_iff
    {first : Except Refusal Item}
    {next : Item → Except Refusal Result}
    {refusal : Refusal} :
    first >>= next = .error refusal ↔
      first = .error refusal ∨ ∃ item, first = .ok item ∧ next item = .error refusal := by
  cases first <;> simp [bind, Except.bind]

theorem functorMap_eq_ok_iff
    {change : Item → Result}
    {outcome : Except Refusal Item}
    {result : Result} :
    change <$> outcome = .ok result ↔ ∃ item, outcome = .ok item ∧ change item = result := by
  cases outcome <;> simp [Functor.map, Except.map]

theorem functorMap_eq_error_iff
    {change : Item → Result}
    {outcome : Except Refusal Item}
    {refusal : Refusal} :
    change <$> outcome = .error refusal ↔ outcome = .error refusal := by
  cases outcome <;> simp [Functor.map, Except.map]

/--
One more item is marked by what stands in front of it, and nothing else changes: the items in
front of an earlier one are the same as before.
-/
theorem map_filter_zipIdx_concat
    (marks : List Item → Item → Prop)
    [∀ earlier item, Decidable (marks earlier item)]
    (items : List Item)
    (item : Item) :
    (((items ++ [item]).zipIdx.filter fun entry =>
        marks ((items ++ [item]).take entry.2) entry.1).map Prod.fst) =
      ((items.zipIdx.filter fun entry => marks (items.take entry.2) entry.1).map Prod.fst) ++
        if marks items item then [item] else [] := by
  have sameFront :
      ∀ entry ∈ items.zipIdx, (items ++ [item]).take entry.2 = items.take entry.2 := by
    intro entry member
    have within := List.snd_lt_of_mem_zipIdx member
    exact List.take_append_of_le_length (by omega)
  have sameMarks :
      items.zipIdx.filter (fun entry => marks ((items ++ [item]).take entry.2) entry.1) =
        items.zipIdx.filter fun entry => marks (items.take entry.2) entry.1 := by
    apply List.filter_congr
    intro entry member
    rw [sameFront entry member]
  rw [List.zipIdx_append, List.filter_append, List.map_append, sameMarks]
  by_cases marked : marks items item
  · simp [marked]
  · simp [marked]

namespace BuildError

theorem ofLineCheck_eq_ok_iff
    {checked : Except Text.IllegalNewline Unit} :
    ofLineCheck checked = .ok () ↔ checked = .ok () := by
  rcases checked with illegal | ⟨⟩
  · have refused : ofLineCheck (.error illegal) = .error (.illegalNewline illegal) :=
      rfl
    rw [refused]
    simp
  · exact iff_of_true rfl rfl

theorem checkOptional_eq_ok_iff
    {check : Item → Except Text.IllegalNewline Unit}
    {item : Option Item} :
    checkOptional check item = .ok () ↔
      ∀ present ∈ item, check present = .ok () := by
  cases item with
  | none => simp [checkOptional]
  | some present => simp [checkOptional, ofLineCheck_eq_ok_iff]

theorem forM_ofLineCheck_eq_ok_iff
    {check : Item → Except Text.IllegalNewline Unit}
    {items : List Item} :
    (items.forM fun item => ofLineCheck (check item)) = .ok () ↔
      ∀ item ∈ items, check item = .ok () := by
  induction items with
  | nil =>
      simp [pure, Except.pure]
  | cons item rest inductionHypothesis =>
      show ofLineCheck (check item) >>= (fun _ =>
          rest.forM fun item => ofLineCheck (check item)) = .ok () ↔ _
      rw [bind_eq_ok_iff, inductionHypothesis, ofLineCheck_eq_ok_iff,
        List.forall_mem_cons]

end BuildError

namespace BuildFile

/-! ## Variables -/

/-- The file with one more variable, whether or not the name is taken. -/
def withVariable
    (file : BuildFile)
    (assignment : Assignment) :
    BuildFile :=
  { file with
    knownVariables := file.knownVariables ++ [assignment.target]
    assignments := file.assignments ++ [assignment] }

/-- A declared variable is new and on a single line; otherwise nothing changes. -/
theorem declareVariable_cases
    (file : BuildFile)
    (var : Variable)
    (value : Value)
    (group : VariableGroup)
    (acceptExisting : Bool) :
    (file.declareVariable var value group acceptExisting).2 = file ∨
      (file.hasVariable var = false ∧
        value.check = .ok () ∧
        file.declareVariable var value group acceptExisting =
          (.ok var, file.withVariable { group, target := var, value })) := by
  unfold declareVariable
  by_cases taken : file.hasVariable var = true
  · left
    rw [if_pos taken]
    split <;> rfl
  · rw [if_neg taken]
    rcases checked : value.check with illegal | ⟨⟩
    · exact .inl rfl
    · exact .inr ⟨by simpa using taken, rfl, rfl⟩

/-- Interning a tool on a single line always yields the variable of its name. -/
theorem internTool_fst
    (file : BuildFile)
    {tool : Tool}
    (checked : tool.invocation.check = .ok ()) :
    (internTool file tool).1 = .ok (.ofString tool.name) := by
  simp only [internTool, declareVariable, checked, ↓reduceIte]
  split <;> rfl

/-- The file after several tools were interned. -/
def interned (file : BuildFile) (tools : List Tool) : BuildFile :=
  tools.foldl (fun current tool => (internTool current tool).2) file

/-- What survives the interning of one tool survives that of several. -/
theorem interned_induct
    {holds : BuildFile → Prop}
    (onTool : ∀ file tool, holds file → holds (internTool file tool).2)
    {file : BuildFile}
    (holdsFile : holds file)
    (tools : List Tool) :
    holds (file.interned tools) := by
  induction tools generalizing file with
  | nil =>
      exact holdsFile
  | cons tool rest inductionHypothesis =>
      exact inductionHypothesis (onTool file tool holdsFile)

/-- Interning never stops at tools on single lines. -/
theorem internAll_internTool
    {tools : List Tool}
    (checked : ∀ tool ∈ tools, tool.invocation.check = .ok ())
    (file : BuildFile) :
    internAll internTool tools file = (none, file.interned tools) := by
  induction tools generalizing file with
  | nil =>
      rfl
  | cons tool rest inductionHypothesis =>
      rw [List.forall_mem_cons] at checked
      have accepted := file.internTool_fst checked.1
      rw [internAll]
      rcases interning : internTool file tool with ⟨outcome, later⟩
      rw [interning] at accepted
      obtain rfl : outcome = .ok (.ofString tool.name) := accepted
      have laterShape : later = (internTool file tool).2 := by
        rw [interning]
      show internAll internTool rest later = _
      rw [inductionHypothesis checked.2 later, laterShape]
      rfl

/-- Everything but the variables of two files is the same. -/
structure AgreesBesidesVariables (file later : BuildFile) : Prop where
  source : later.source = file.source
  target : later.target = file.target
  requiredVersion : later.requiredVersion = file.requiredVersion
  rules : later.rules = file.rules
  edges : later.edges = file.edges
  knownOutputs : later.knownOutputs = file.knownOutputs
  defaults : later.defaults = file.defaults

theorem AgreesBesidesVariables.refl
    (file : BuildFile) :
    AgreesBesidesVariables file file :=
  ⟨rfl, rfl, rfl, rfl, rfl, rfl, rfl⟩

theorem AgreesBesidesVariables.declareVariable
    {file later : BuildFile}
    (agrees : AgreesBesidesVariables file later)
    (var : Variable)
    (value : Value)
    (group : VariableGroup)
    (acceptExisting : Bool) :
    AgreesBesidesVariables file
      (later.declareVariable var value group acceptExisting).2 := by
  rcases later.declareVariable_cases var value group acceptExisting with
    same | ⟨_, _, declared⟩
  · rw [same]
    exact agrees
  · rw [declared]
    exact ⟨agrees.source, agrees.target, agrees.requiredVersion, agrees.rules,
      agrees.edges, agrees.knownOutputs, agrees.defaults⟩

/-- Interning tools changes nothing but the variables. -/
theorem agreesBesidesVariables_interned
    (file : BuildFile)
    (tools : List Tool) :
    AgreesBesidesVariables file (file.interned tools) :=
  interned_induct (fun _ _ agrees => agrees.declareVariable _ _ _ _)
    (.refl file) tools

theorem AgreesBesidesVariables.ruleNames
    {file later : BuildFile}
    (agrees : AgreesBesidesVariables file later) :
    later.ruleNames = file.ruleNames :=
  congrArg (List.map Rule.name) agrees.rules

/-! ## Versions -/

/-- Requiring a version changes nothing but the required version. -/
theorem requireVersion_eq
    (file : BuildFile)
    (version : Version) :
    ∃ required,
      file.requireVersion version = { file with requiredVersion := required } := by
  unfold requireVersion
  split
  · exact ⟨some version, rfl⟩
  · split
    · exact ⟨some version, rfl⟩
    · exact ⟨file.requiredVersion, rfl⟩

theorem requirePool_eq
    (file : BuildFile)
    (pool : Option Pool) :
    ∃ required,
      file.requirePool pool = { file with requiredVersion := required } := by
  cases pool with
  | none => exact ⟨file.requiredVersion, rfl⟩
  | some pool => exact file.requireVersion_eq pool.minimumVersion

/-! ## Rules -/

/-- When a rule is accepted, and with which pool. -/
structure AcceptsRule
    (file : BuildFile)
    (name : String)
    (command : Commands)
    (options : RuleOptions)
    (pool : Option Pool) :
    Prop where
  notEmpty : name ≠ ""
  nameCharacters : name.toList.all isNameCharacter = true
  notPhony : name ≠ phonyRule
  fresh : name ∉ file.ruleNames
  knownPool : Pool.ofName (options.pool.getD "") = .ok pool
  command : command.check = .ok ()
  depfile : ∀ depfile ∈ options.depfile, depfile.check = .ok ()
  deps : ∀ deps ∈ options.deps, Text.checkSingleLine deps.toList = .ok ()

/-- The check of a rule accepts just such rules. -/
theorem checkRule_eq_ok_iff
    {file : BuildFile}
    {name : String}
    {command : Commands}
    {options : RuleOptions}
    {pool : Option Pool} :
    file.checkRule name command options = .ok pool ↔
      file.AcceptsRule name command options pool := by
  unfold checkRule
  simp only [ite_throw_eq_ok_iff]
  rw [bind_eq_ok_exists_iff]
  simp only [bind_eq_ok_iff, BuildError.ofLineCheck_eq_ok_iff,
    BuildError.checkOptional_eq_ok_iff, pure, Except.pure, Except.ok.injEq]
  constructor
  · rintro ⟨named, free, _, known, command, depfile, deps, rfl⟩
    rw [not_or, Classical.not_not] at named
    rw [not_or] at free
    exact ⟨named.1, named.2, free.1, by simpa [hasRule] using free.2, known,
      command, depfile, deps⟩
  · intro accepts
    have fresh := accepts.fresh
    refine ⟨?_, ?_, pool, accepts.knownPool, accepts.command, accepts.depfile,
      accepts.deps, rfl⟩
    · simp [accepts.notEmpty, accepts.nameCharacters]
    · simp [accepts.notPhony, hasRule, fresh]

/-- The rule that is kept of a declaration, with its tools replaced. -/
def ruleFor
    (file : BuildFile)
    (name : String)
    (command : Commands)
    (options : RuleOptions)
    (pool : Option Pool) :
    Rule where
  name
  command := (command.convert internTool file).converted.toValue
  depfile := options.depfile
  deps := options.deps
  generator := options.generator
  pool
  restat := options.restat

/-- The file with one more rule. -/
def withRule (file : BuildFile) (rule : Rule) : BuildFile :=
  { file with rules := file.rules ++ [rule] }

/-- How the conversion of an accepted command ends. -/
theorem convert_internTool_ending
    {command : Commands}
    (checked : command.check = .ok ())
    (file : BuildFile) :
    (command.convert internTool file).failure = none ∧
      (command.convert internTool file).state = file.interned command.tools := by
  have ending := (command.convert_describes internTool file).ending
  rw [internAll_internTool (fun _ => Commands.check_invocation checked)] at ending
  exact Prod.mk.inj ending

/-- A rule is declared after its tools and its pool's version, or it changes nothing. -/
theorem declareRule_cases
    (file : BuildFile)
    (name : String)
    (command : Commands)
    (options : RuleOptions) :
    (∃ error, file.declareRule name command options = (.error error, file)) ∨
      ∃ pool,
        file.AcceptsRule name command options pool ∧
          file.declareRule name command options =
            (.ok (),
              ((file.interned command.tools).requirePool pool).withRule
                (file.ruleFor name command options pool)) := by
  unfold declareRule
  rcases checked : file.checkRule name command options with error | pool
  · exact .inl ⟨error, rfl⟩
  · have accepts := checkRule_eq_ok_iff.mp checked
    obtain ⟨ended, state⟩ := file.convert_internTool_ending accepts.command
    refine .inr ⟨pool, accepts, ?_⟩
    simp only [ended, state]
    rfl

theorem tools_ruleFor
    {file : BuildFile}
    {name : String}
    {command : Commands}
    {options : RuleOptions}
    {pool : Option Pool}
    (accepts : file.AcceptsRule name command options pool) :
    (file.ruleFor name command options pool).command.tools = [] := by
  have ended := (file.convert_internTool_ending accepts.command).1
  rw [ruleFor, Commands.tools_toValue]
  exact (command.convert_describes internTool file).toolless ended

theorem check_ruleFor
    {file : BuildFile}
    {name : String}
    {command : Commands}
    {options : RuleOptions}
    {pool : Option Pool}
    (accepts : file.AcceptsRule name command options pool) :
    (file.ruleFor name command options pool).command.check = .ok () :=
  Commands.check_toValue
    ((command.convert_describes internTool file).accepted accepts.command)

/-! ## Edges -/

/-- When an edge is accepted. -/
structure AcceptsEdge (file : BuildFile) (edge : Edge) : Prop where
  knownRule : edge.rule = phonyRule ∨ edge.rule ∈ file.ruleNames
  hasOutputs : edge.outputs ≠ []
  outputs : ∀ output ∈ edge.outputs, output.check = .ok ()
  inputs : ∀ input ∈ edge.inputs, input.check = .ok ()
  implicit : ∀ input ∈ edge.implicit, input.check = .ok ()
  orderOnly : ∀ input ∈ edge.orderOnly, input.check = .ok ()
  overrides : ∀ value ∈ edge.overrides.values, value.check = .ok ()
  distinct : edge.outputs.Nodup
  fresh : ∀ output ∈ edge.outputs, output ∉ file.knownOutputs

/-- No output is repeated when all are distinct and none is known. -/
theorem repeatedOutputs_eq_nil_iff
    {known outputs : List Fragment} :
    repeatedOutputs known outputs = [] ↔
      outputs.Nodup ∧ ∀ output ∈ outputs, output ∉ known := by
  -- Every output that is passed becomes a known one for those behind it.
  induction outputs generalizing known with
  | nil =>
      simp [repeatedOutputs]
  | cons output rest inductionHypothesis =>
      by_cases isKnown : output ∈ known
      · simp [repeatedOutputs, isKnown]
      · rw [repeatedOutputs, if_neg isKnown, inductionHypothesis,
          List.nodup_cons, List.forall_mem_cons]
        constructor
        · rintro ⟨distinct, fresh⟩
          refine ⟨⟨?_, distinct⟩, isKnown, ?_⟩
          · intro repeated
            exact fresh output repeated List.mem_cons_self
          · intro other member known
            exact fresh other member (List.mem_cons_of_mem _ known)
        · rintro ⟨⟨notRepeated, distinct⟩, -, fresh⟩
          refine ⟨distinct, ?_⟩
          intro other member known
          rcases List.mem_cons.mp known with rfl | known
          · exact notRepeated member
          · exact fresh other member known

/-- The check of an edge accepts just such edges. -/
theorem checkEdge_eq_ok_iff
    {file : BuildFile}
    {edge : Edge} :
    file.checkEdge edge = .ok () ↔ file.AcceptsEdge edge := by
  unfold checkEdge
  simp only [ite_throw_eq_ok_iff, bind_eq_ok_iff,
    BuildError.ofLineCheck_eq_ok_iff, BuildError.forM_ofLineCheck_eq_ok_iff,
    Fragment.checkAll_eq_ok_iff]
  constructor
  · rintro ⟨rule, hasOutputs, outputs, inputs, implicit, orderOnly, overrides,
      unrepeated⟩
    have knownRule : edge.rule = phonyRule ∨ edge.rule ∈ file.ruleNames := by
      simpa [hasRule, Classical.or_iff_not_imp_left] using rule
    have noRepeats : repeatedOutputs file.knownOutputs edge.outputs = [] := by
      split at unrepeated
      · assumption
      · simp [throw, throwThe, MonadExceptOf.throw] at unrepeated
    obtain ⟨distinct, fresh⟩ := repeatedOutputs_eq_nil_iff.mp noRepeats
    exact ⟨knownRule, hasOutputs, outputs, inputs, implicit, orderOnly, overrides,
      distinct, fresh⟩
  · intro accepts
    have knownRule := accepts.knownRule
    have noRepeats : repeatedOutputs file.knownOutputs edge.outputs = [] :=
      repeatedOutputs_eq_nil_iff.mpr ⟨accepts.distinct, accepts.fresh⟩
    refine ⟨?_, accepts.hasOutputs, accepts.outputs, accepts.inputs,
      accepts.implicit, accepts.orderOnly, accepts.overrides, ?_⟩
    · simpa [hasRule, Classical.or_iff_not_imp_left] using knownRule
    · rw [noRepeats]
      rfl

/-- The edge that is kept of a declaration, with its tools replaced. -/
def convertedEdge (file : BuildFile) (edge : Edge) : Edge :=
  { edge with
    overrides := (convertTable internTool edge.overrides file).converted }

/-- The file with one more edge. -/
def withEdge (file : BuildFile) (edge : Edge) : BuildFile :=
  { file with
    edges := file.edges ++ [edge]
    knownOutputs := file.knownOutputs ++ edge.outputs }

/-- The tools in the overrides of an edge, in order. -/
def toolsOfEdge (edge : Edge) : List Tool :=
  toolsOfEntries edge.overrides.entries

/-- How the conversion of accepted overrides ends. -/
theorem convertTable_internTool_ending
    {edge : Edge}
    (checked : ∀ value ∈ edge.overrides.values, value.check = .ok ())
    (file : BuildFile) :
    (convertTable internTool edge.overrides file).failure = none ∧
      (convertTable internTool edge.overrides file).state =
        file.interned (toolsOfEdge edge) := by
  have invocations :
      ∀ tool ∈ toolsOfEntries edge.overrides.entries,
        tool.invocation.check = .ok () := by
    intro tool member
    obtain ⟨entry, entryMember, toolMember⟩ := List.mem_flatMap.mp member
    exact Value.check_invocation
      (checked entry.2 (List.mem_map_of_mem entryMember)) toolMember
  have ending :=
    (convertEntries_describes internTool edge.overrides.entries file).ending
  rw [internAll_internTool invocations] at ending
  exact Prod.mk.inj ending

/-- An edge is declared after its tools, or it changes nothing. -/
theorem declareEdge_cases
    (file : BuildFile)
    (edge : Edge) :
    (∃ error, file.declareEdge edge = (.error error, file)) ∨
      (file.AcceptsEdge edge ∧
        file.declareEdge edge =
          (.ok (),
            (file.interned (toolsOfEdge edge)).withEdge
              (file.convertedEdge edge))) := by
  unfold declareEdge
  rcases checked : file.checkEdge edge with error | ⟨⟩
  · exact .inl ⟨error, rfl⟩
  · have accepts := checkEdge_eq_ok_iff.mp checked
    obtain ⟨ended, state⟩ := file.convertTable_internTool_ending accepts.overrides
    refine .inr ⟨accepts, ?_⟩
    simp only [ended, state]
    rfl

/-- A declared edge has no tools left. -/
theorem tools_convertedEdge
    {file : BuildFile}
    {edge : Edge}
    (accepts : file.AcceptsEdge edge) :
    ∀ value ∈ (file.convertedEdge edge).overrides.values, value.tools = [] := by
  have ended := (file.convertTable_internTool_ending accepts.overrides).1
  have toolless :=
    (convertEntries_describes internTool edge.overrides.entries file).toolless
      ended
  intro value member
  obtain ⟨entry, entryMember, rfl⟩ := List.mem_map.mp member
  exact List.flatMap_eq_nil_iff.mp toolless entry entryMember

theorem check_convertedEdge
    {file : BuildFile}
    {edge : Edge}
    (accepts : file.AcceptsEdge edge) :
    ∀ value ∈ (file.convertedEdge edge).overrides.values,
      value.check = .ok () := by
  have checked : checkEntries edge.overrides.entries = .ok () := by
    rw [checkEntries_eq_ok_iff]
    intro entry member
    exact accepts.overrides entry.2 (List.mem_map_of_mem member)
  have converted :=
    (convertEntries_describes internTool edge.overrides.entries file).accepted
      checked
  rw [checkEntries_eq_ok_iff] at converted
  intro value member
  obtain ⟨entry, entryMember, rfl⟩ := List.mem_map.mp member
  exact converted entry entryMember

/-! ## Command edges and defaults -/

/-- What survives declarations of rules and edges survives those of command edges. -/
theorem declareCommandEdge_induct
    {holds : BuildFile → Prop}
    (onRule :
      ∀ file name command options,
        holds file → holds (file.declareRule name command options).2)
    (onEdge : ∀ file edge, holds file → holds (file.declareEdge edge).2)
    {file : BuildFile}
    (holdsFile : holds file)
    (edge : CommandEdge) :
    holds (file.declareCommandEdge edge).2 := by
  have afterRule : holds (file.declareSharedRule edge.console).2 := by
    unfold declareSharedRule
    split
    · exact holdsFile
    · exact onRule _ _ _ _ holdsFile
  have afterTarget :
      ∀ {current : BuildFile},
        holds current → holds current.declareAlwaysOutdated.2 := by
    intro current holdsCurrent
    unfold declareAlwaysOutdated
    split
    · exact holdsCurrent
    · exact onEdge _ _ holdsCurrent
  unfold declareCommandEdge
  rcases shared : file.declareSharedRule edge.console with ⟨_ | ⟨⟩, withRule⟩
  · rw [shared] at afterRule
    exact afterRule
  · rw [shared] at afterRule
    have afterBoth := afterTarget afterRule
    simp only at afterBoth ⊢
    rcases target : withRule.declareAlwaysOutdated with ⟨_ | ⟨⟩, withTarget⟩
    · rw [target] at afterBoth
      exact afterBoth
    · rw [target] at afterBoth
      exact onEdge _ _ afterBoth

/-- Default targets on single lines are added, and otherwise nothing changes. -/
theorem addDefaults_cases
    (file : BuildFile)
    (targets : List Fragment) :
    (file.addDefaults targets).2 = file ∨
      ((∀ target ∈ targets, target.check = .ok ()) ∧
        file.addDefaults targets =
          (.ok (), { file with defaults := file.defaults ++ targets })) := by
  unfold addDefaults
  rcases checked : Fragment.checkAll targets with illegal | ⟨⟩
  · exact .inl rfl
  · exact .inr ⟨Fragment.checkAll_eq_ok_iff.mp checked, rfl⟩

/-! ## Rejected declarations -/

/--
A rejected declaration leaves the whole file as it was.  Tools that it mentions are not
interned, and the version that its pool needs is not required.

Edges with a command of their own are left out: what they share with others is declared
before they are checked themselves.
-/
theorem perform_of_rejected
    {file : BuildFile}
    {operation : Operation}
    (noCommandEdge : ∀ edge, operation ≠ .declareCommandEdge edge)
    {error : BuildError}
    (rejected : (operation.perform file).1 = .error error) :
    (operation.perform file).2 = file := by
  have ofVariable :
      ∀ var value group acceptExisting,
        (file.declareVariable var value group acceptExisting).1.map (fun _ => ()) =
            .error error →
          (file.declareVariable var value group acceptExisting).2 = file := by
    intro var value group acceptExisting refused
    rcases file.declareVariable_cases var value group acceptExisting with
      same | ⟨_, _, declared⟩
    · exact same
    · rw [declared] at refused
      cases refused
  cases operation with
  | declareVariable var value group acceptExisting =>
      exact ofVariable _ _ _ _ rejected
  | internTool tool =>
      exact ofVariable _ _ _ _ rejected
  | declareRule name command options =>
      rcases file.declareRule_cases name command options with
        ⟨_, refused⟩ | ⟨_, _, declared⟩
      · exact congrArg Prod.snd refused
      · cases (congrArg Prod.fst declared).symm.trans rejected
  | declareEdge edge =>
      rcases file.declareEdge_cases edge with ⟨_, refused⟩ | ⟨_, declared⟩
      · exact congrArg Prod.snd refused
      · cases (congrArg Prod.fst declared).symm.trans rejected
  | declareCommandEdge edge =>
      exact absurd rfl (noCommandEdge edge)
  | addDefaults targets =>
      rcases file.addDefaults_cases targets with same | ⟨_, added⟩
      · exact same
      · cases (congrArg Prod.fst added).symm.trans rejected
  | requireVersion version =>
      cases rejected

/--
A rule for the console and an edge, both of them with a tool whose invocation holds another
tool, are rejected for their last fault and change nothing.
-/
theorem perform_of_rejected_nestedTools :
    let compiler :=
      Argument.tool "cc" (.words [.tool "ccache" (.text (.plain "ccache"))])
    let command := Commands.single (.nested (.single (.arguments [compiler])))
    let rule :=
      Operation.declareRule "compile" command
        { deps := some "gcc\n", pool := some "console" }
    let edge :=
      Operation.declareEdge
        { outputs := [.plain "all"]
          rule := "phony"
          overrides := Table.empty.insert (.ofString "cmd") (.words [compiler]) }
    let file :=
      run [.declareEdge { outputs := [.plain "all"], rule := "phony" }]
        (empty "build.yaml" (.forPlatform .linux))
    ((rule.perform file).1 = .error (.illegalNewline { text := "gcc\n" }) ∧
        (rule.perform file).2 = file) ∧
      (edge.perform file).1 = .error (.duplicateOutputs ["all"]) ∧
        (edge.perform file).2 = file := by
  intro compiler command rule edge file
  have ruleRejected :
      (rule.perform file).1 = .error (.illegalNewline { text := "gcc\n" }) :=
    rfl
  have edgeRejected : (edge.perform file).1 = .error (.duplicateOutputs ["all"]) :=
    rfl
  refine ⟨⟨ruleRejected, ?_⟩, edgeRejected, ?_⟩
  · exact perform_of_rejected (by simp [rule]) ruleRejected
  · exact perform_of_rejected (by simp [edge]) edgeRejected

end BuildFile

end BuildGraph
