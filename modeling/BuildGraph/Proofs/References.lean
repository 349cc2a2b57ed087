import BuildGraph.Proofs.Declarations

namespace BuildGraph

/-!
# References in the place of tools

What a rule or an edge keeps of a command is the command with a reference in the place of
every tool.  The reference is made from the tool's name alone, so neither the file nor the
order of declarations has a part in what is kept.
-/

/-- The variable that a tool's invocation is kept in. -/
def Tool.holder (tool : Tool) : Variable :=
  .ofString tool.name

/-- The same argument, where a tool is replaced by the reference to its variable. -/
def Argument.withReference : Argument → Argument
  | .text fragment => .text fragment
  | .tool name invocation => .text (Tool.holder { name, invocation }).use

mutual

/-- The same line with references in the place of tools. -/
def Line.withReferences : Line → Line
  | .arguments arguments => .arguments (arguments.map Argument.withReference)
  | .shellList arguments => .shellList (arguments.map Argument.withReference)
  | .script script => .script script
  | .nested commands => .nested commands.withReferences

/-- The same lines with references in the place of tools. -/
def Line.allWithReferences : List Line → List Line
  | [] => []
  | line :: rest => line.withReferences :: Line.allWithReferences rest

/-- The same command with references in the place of tools, at any depth. -/
def Commands.withReferences : Commands → Commands
  | .mk environment first rest =>
      .mk environment first.withReferences (Line.allWithReferences rest)

end

/-- The same value with references in the place of tools. -/
def Value.withReferences : Value → Value
  | .text fragment => .text fragment
  | .words arguments => .words (arguments.map Argument.withReference)
  | .sequence commands => .sequence commands.withReferences

/-- The same edge with references in the place of tools in its overrides. -/
def Edge.withReferences (edge : Edge) : Edge :=
  { edge with overrides := edge.overrides.mapValues Value.withReferences }

/-- The rule that a declaration is kept as. -/
def Rule.ofDeclaration
    (name : String)
    (command : Commands)
    (options : RuleOptions)
    (pool : Option Pool) :
    Rule where
  name
  command := command.withReferences.toValue
  depfile := options.depfile
  deps := options.deps
  generator := options.generator
  pool
  restat := options.restat

/-! ## Conversion puts the references in -/

/-- An interning function accepts tools, each of them for the variable of its name. -/
def AcceptsTools (intern : Interning State Refusal) (tools : List Tool) : Prop :=
  ∀ tool ∈ tools, ∀ state, (intern state tool).1 = .ok tool.holder

/-- A conversion came to its end with this result. -/
structure Conversion.EndsWith
    (conversion : Conversion State Refusal Converted)
    (result : Converted) :
    Prop where
  failure : conversion.failure = none
  converted : conversion.converted = result

namespace Conversion.EndsWith

theorem map
    {conversion : Conversion State Refusal First}
    {result : First}
    (ends : conversion.EndsWith result)
    (change : First → Second) :
    (conversion.map change).EndsWith (change result) :=
  ⟨ends.failure, congrArg change ends.converted⟩

theorem thenRest
    {head : Conversion State Refusal Converted}
    {first : Converted}
    {rest others : List Converted}
    {convertRest : State → Conversion State Refusal (List Converted)}
    (headEnds : head.EndsWith first)
    (restEnds : ∀ state, (convertRest state).EndsWith others) :
    (head.thenRest rest convertRest).EndsWith (first :: others) := by
  unfold Conversion.thenRest
  rw [headEnds.failure, headEnds.converted]
  exact (restEnds head.state).map (first :: ·)

end Conversion.EndsWith

theorem Argument.convertAll_endsWith
    {intern : Interning State Refusal}
    {arguments : List Argument}
    (accepts : AcceptsTools intern (Argument.toolsOf arguments))
    (state : State) :
    (Argument.convertAll intern arguments state).EndsWith
      (arguments.map Argument.withReference) := by
  induction arguments generalizing state with
  | nil =>
      exact ⟨rfl, rfl⟩
  | cons argument rest inductionHypothesis =>
      cases argument with
      | text fragment =>
          exact (inductionHypothesis accepts state).map (.text fragment :: ·)
      | tool name invocation =>
          rw [Argument.toolsOf, AcceptsTools, List.forall_mem_cons] at accepts
          have accepted := accepts.1 state
          rw [Argument.convertAll]
          rcases interned : intern state { name, invocation } with ⟨outcome, later⟩
          rw [interned] at accepted
          obtain rfl : outcome = .ok _ := accepted
          exact (inductionHypothesis accepts.2 later).map (_ :: ·)

theorem AcceptsTools.of_append
    {intern : Interning State Refusal}
    {first second : List Tool}
    (accepts : AcceptsTools intern (first ++ second)) :
    AcceptsTools intern first ∧ AcceptsTools intern second :=
  List.forall_mem_append.mp accepts

mutual

theorem Line.convert_endsWith
    {intern : Interning State Refusal} :
    ∀ {line : Line},
      AcceptsTools intern line.tools →
      ∀ state, (line.convert intern state).EndsWith line.withReferences
  | .arguments arguments, accepts, state => by
      rw [Line.tools] at accepts
      rw [Line.convert, Line.withReferences]
      exact (Argument.convertAll_endsWith accepts state).map Line.arguments
  | .shellList arguments, accepts, state => by
      rw [Line.tools] at accepts
      rw [Line.convert, Line.withReferences]
      exact (Argument.convertAll_endsWith accepts state).map Line.shellList
  | .script script, _, state => by
      rw [Line.convert, Line.withReferences]
      exact ⟨rfl, rfl⟩
  | .nested commands, accepts, state => by
      rw [Line.tools] at accepts
      rw [Line.convert, Line.withReferences]
      exact (Commands.convert_endsWith accepts state).map Line.nested

theorem Line.convertAll_endsWith
    {intern : Interning State Refusal} :
    ∀ {lines : List Line},
      AcceptsTools intern (Line.toolsOf lines) →
      ∀ state,
        (Line.convertAll intern lines state).EndsWith (Line.allWithReferences lines)
  | [], _, state => by
      rw [Line.convertAll, Line.allWithReferences]
      exact ⟨rfl, rfl⟩
  | line :: rest, accepts, state => by
      rw [Line.toolsOf] at accepts
      rw [Line.convertAll, Line.allWithReferences]
      exact (Line.convert_endsWith accepts.of_append.1 state).thenRest
        (Line.convertAll_endsWith accepts.of_append.2)

theorem Commands.convert_endsWith
    {intern : Interning State Refusal} :
    ∀ {commands : Commands},
      AcceptsTools intern commands.tools →
      ∀ state, (commands.convert intern state).EndsWith commands.withReferences
  | .mk environment first rest, accepts, state => by
      rw [Commands.tools] at accepts
      have head := Line.convert_endsWith accepts.of_append.1 state
      have others :=
        Line.convertAll_endsWith accepts.of_append.2 (first.convert intern state).state
      rw [Commands.convert, Commands.withReferences]
      simp only [head.failure, head.converted]
      exact others.map (Commands.mk environment first.withReferences)

end

theorem Value.convert_endsWith
    {intern : Interning State Refusal}
    {value : Value}
    (accepts : AcceptsTools intern value.tools)
    (state : State) :
    (value.convert intern state).EndsWith value.withReferences := by
  cases value with
  | text fragment =>
      exact ⟨rfl, rfl⟩
  | words arguments =>
      exact (Argument.convertAll_endsWith accepts state).map Value.words
  | sequence commands =>
      exact (Commands.convert_endsWith accepts state).map Value.sequence

theorem convertEntries_endsWith
    {intern : Interning State Refusal}
    {entries : List (α × Value)}
    (accepts : AcceptsTools intern (toolsOfEntries entries))
    (state : State) :
    (BuildFile.convertEntries intern entries state).EndsWith
      (entries.map fun entry => (entry.1, entry.2.withReferences)) := by
  induction entries generalizing state with
  | nil =>
      exact ⟨rfl, rfl⟩
  | cons entry rest inductionHypothesis =>
      obtain ⟨key, value⟩ := entry
      rw [toolsOfEntries, List.flatMap_cons] at accepts
      have head := Value.convert_endsWith accepts.of_append.1 state
      rw [BuildFile.convertEntries]
      exact (head.map (key, ·)).thenRest (inductionHypothesis accepts.of_append.2)

namespace BuildFile

/-- Interning in a file accepts every tool on a single line. -/
theorem acceptsTools_internTool
    {tools : List Tool}
    (checked : ∀ tool ∈ tools, tool.invocation.check = .ok ()) :
    AcceptsTools internTool tools :=
  fun tool member file => file.internTool_fst (checked tool member)

/-- A rule is kept with references, whatever its file holds. -/
theorem ruleFor_eq
    {file : BuildFile}
    {name : String}
    {command : Commands}
    {options : RuleOptions}
    {pool : Option Pool}
    (accepts : file.AcceptsRule name command options pool) :
    file.ruleFor name command options pool =
      .ofDeclaration name command options pool := by
  have accepted : AcceptsTools internTool command.tools :=
    acceptsTools_internTool fun _ => Commands.check_invocation accepts.command
  rw [ruleFor, (Commands.convert_endsWith accepted file).converted]
  rfl

/-- The invocations of all tools of an accepted edge are on single lines. -/
theorem check_invocation_of_mem_toolsOfEdge
    {edge : Edge}
    (checked : ∀ value ∈ edge.overrides.values, value.check = .ok ()) :
    ∀ tool ∈ toolsOfEdge edge, tool.invocation.check = .ok () := by
  intro tool member
  obtain ⟨entry, entryMember, toolMember⟩ := List.mem_flatMap.mp member
  exact Value.check_invocation
    (checked entry.2 (List.mem_map_of_mem entryMember)) toolMember

/-- An edge is kept with references, whatever its file holds. -/
theorem convertedEdge_eq
    {file : BuildFile}
    {edge : Edge}
    (accepts : file.AcceptsEdge edge) :
    file.convertedEdge edge = edge.withReferences := by
  have accepted : AcceptsTools internTool (toolsOfEntries edge.overrides.entries) :=
    acceptsTools_internTool (check_invocation_of_mem_toolsOfEdge accepts.overrides)
  have ends := convertEntries_endsWith accepted file
  simp only [convertedEdge, Edge.withReferences, convertTable, Table.mapValues,
    ends.converted]

/-- An accepted rule is declared behind its tools and the version that its pool needs. -/
theorem declareRule_of_accepts
    {file : BuildFile}
    {name : String}
    {command : Commands}
    {options : RuleOptions}
    {pool : Option Pool}
    (accepts : file.AcceptsRule name command options pool) :
    file.declareRule name command options =
      (.ok (),
        ((file.interned command.tools).requirePool pool).withRule
          (.ofDeclaration name command options pool)) := by
  obtain ⟨ended, state⟩ := file.convert_internTool_ending accepts.command
  rw [← ruleFor_eq accepts, declareRule, checkRule_eq_ok_iff.mpr accepts]
  simp only [ended, state]
  rfl

/-- An accepted edge is declared behind its tools. -/
theorem declareEdge_of_accepts
    {file : BuildFile}
    {edge : Edge}
    (accepts : file.AcceptsEdge edge) :
    file.declareEdge edge =
      (.ok (),
        (file.interned (toolsOfEdge edge)).withEdge edge.withReferences) := by
  obtain ⟨ended, state⟩ := file.convertTable_internTool_ending accepts.overrides
  rw [← convertedEdge_eq accepts, declareEdge, checkEdge_eq_ok_iff.mpr accepts]
  simp only [ended, state]
  rfl

theorem acceptsRule_of_declareRule
    {file : BuildFile}
    {name : String}
    {command : Commands}
    {options : RuleOptions}
    (accepted : (file.declareRule name command options).1 = .ok ()) :
    ∃ pool, file.AcceptsRule name command options pool := by
  rcases file.declareRule_cases name command options with
    ⟨_, rejected⟩ | ⟨pool, accepts, _⟩
  · rw [rejected] at accepted
    cases accepted
  · exact ⟨pool, accepts⟩

theorem acceptsEdge_of_declareEdge
    {file : BuildFile}
    {edge : Edge}
    (accepted : (file.declareEdge edge).1 = .ok ()) :
    file.AcceptsEdge edge := by
  rcases file.declareEdge_cases edge with ⟨_, rejected⟩ | ⟨accepts, _⟩
  · rw [rejected] at accepted
    cases accepted
  · exact accepts

end BuildFile

/-! ## What references leave alone -/

/-- References do not change whether a command needs a shell. -/
theorem Commands.needsShell_withReferences
    (commands : Commands) :
    commands.withReferences.needsShell = commands.needsShell := by
  obtain ⟨environment, first, rest⟩ := commands
  rw [Commands.withReferences]
  cases rest with
  | nil =>
      cases first <;> rw [Line.withReferences, Line.allWithReferences] <;> rfl
  | cons line others =>
      cases first <;> rw [Line.withReferences, Line.allWithReferences] <;> rfl

/-- A command needs no shell just when it is a lone argument vector without bindings. -/
theorem Commands.needsShell_eq_false_iff
    {commands : Commands} :
    commands.needsShell = false ↔
      (∃ arguments, commands.lines = [.arguments arguments]) ∧
        commands.environment.entries = [] := by
  obtain ⟨environment, first, rest⟩ := commands
  cases first <;> cases rest <;>
    simp [Commands.needsShell, Commands.lines, Commands.environment]

/-- A command collapses to a bare word list just when it needs no shell. -/
theorem Commands.toValue_eq_words_iff
    {commands : Commands} :
    (∃ arguments, commands.toValue = .words arguments) ↔
      commands.needsShell = false := by
  constructor
  · rintro ⟨arguments, bare⟩
    rcases commands.toValue_cases with same | ⟨environment, items, rfl, noBindings, _⟩
    · rw [same] at bare
      cases bare
    · simp [Commands.needsShell, noBindings]
  · intro direct
    obtain ⟨environment, first, rest⟩ := commands
    obtain ⟨⟨arguments, lines⟩, _⟩ := Commands.needsShell_eq_false_iff.mp direct
    obtain ⟨rfl, rfl⟩ := List.cons.inj lines
    refine ⟨arguments, ?_⟩
    unfold Commands.toValue
    rw [direct]
    rfl

/-- What a rule keeps of a command is bare words just for a lone argument vector. -/
theorem Commands.toValue_withReferences_eq_words_iff
    {commands : Commands} :
    (∃ arguments, commands.withReferences.toValue = .words arguments) ↔
      (∃ arguments, commands.lines = [.arguments arguments]) ∧
        commands.environment.entries = [] := by
  rw [toValue_eq_words_iff, needsShell_withReferences, needsShell_eq_false_iff]

end BuildGraph
