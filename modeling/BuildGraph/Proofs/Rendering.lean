import BuildGraph.Ninja.File
import BuildGraph.Ninja.Stream
import BuildGraph.Proofs.Consistency
import BuildGraph.Proofs.Written

namespace BuildGraph.Ninja

/-!
# When writing stops

Whatever is on single lines is written up to its first tool.  For each writer this says
with which outcome it ends, so that outcomes add up as the tools of larger things do.
-/

/-- The outcome of writing something with the given tools in it. -/
def stopAt : List Tool → Except RenderError Unit
  | [] => .ok ()
  | tool :: _ => .error (.unconvertedTool tool.name)

namespace Output

/-- An output ends as one that writes the given tools. -/
def StopsAt (output : Output Unit) (tools : List Tool) : Prop :=
  output.outcome = stopAt tools

theorem stopsAt_write
    (text : List Char) :
    (write text).StopsAt [] :=
  rfl

/-- An output behind a text stops where it would without. -/
theorem StopsAt.behind
    {next : Output Unit}
    {tools : List Tool}
    (stops : next.StopsAt tools)
    (text : List Char) :
    ((write text).andThen fun _ => next).StopsAt tools :=
  stops

/-- Of two outputs the first one stops, if it has a tool, and the second one otherwise. -/
theorem StopsAt.andThen
    {output next : Output Unit}
    {tools others : List Tool}
    (first : output.StopsAt tools)
    (second : next.StopsAt others) :
    (output.andThen fun _ => next).StopsAt (tools ++ others) := by
  rcases output with ⟨text, outcome⟩
  obtain rfl : outcome = stopAt tools := first
  cases tools with
  | nil =>
      exact second
  | cons tool rest =>
      rfl

/-- A text behind an output does not change where it stops. -/
theorem StopsAt.followed
    {output : Output Unit}
    {tools : List Tool}
    (stops : output.StopsAt tools)
    (text : List Char) :
    (output.andThen fun _ => write text).StopsAt tools := by
  have both :
      (output.andThen fun _ => write text).StopsAt (tools ++ []) :=
    stops.andThen (stopsAt_write text)
  rwa [List.append_nil] at both

/-- Outputs one after the other stop at the first tool of all. -/
theorem stopsAt_forEach
    {write : Item → Output Unit}
    {toolsOf : Item → List Tool}
    {items : List Item}
    (each : ∀ item ∈ items, (write item).StopsAt (toolsOf item)) :
    (forEach write items).StopsAt (items.flatMap toolsOf) := by
  induction items with
  | nil =>
      rfl
  | cons item rest inductionHypothesis =>
      rw [List.forall_mem_cons] at each
      rw [forEach, bind_eq_andThen, List.flatMap_cons]
      exact each.1.andThen (inductionHypothesis each.2)

/-- Outputs with separators between them stop at the first tool of all. -/
theorem stopsAt_separated
    {separator : List Char}
    {write : Item → Output Unit}
    {toolsOf : Item → List Tool}
    {items : List Item}
    (each : ∀ item ∈ items, (write item).StopsAt (toolsOf item)) :
    (separated separator write items).StopsAt (items.flatMap toolsOf) := by
  cases items with
  | nil =>
      rfl
  | cons item rest =>
      rw [List.forall_mem_cons] at each
      rw [separated, bind_eq_andThen, List.flatMap_cons]
      refine each.1.andThen (stopsAt_forEach fun next member => ?_)
      exact (each.2 next member).behind separator

theorem stopsAt_separated_nil
    {separator : List Char}
    {write : Item → Output Unit}
    {items : List Item}
    (each : ∀ item ∈ items, (write item).StopsAt []) :
    (separated separator write items).StopsAt [] := by
  have together :
      (separated separator write items).StopsAt (items.flatMap fun _ => []) :=
    stopsAt_separated each
  rwa [List.flatMap_eq_nil_iff.mpr fun _ _ => rfl] at together

theorem stopsAt_forEach_nil
    {write : Item → Output Unit}
    {items : List Item}
    (each : ∀ item ∈ items, (write item).StopsAt []) :
    (forEach write items).StopsAt [] := by
  have together : (forEach write items).StopsAt (items.flatMap fun _ => []) :=
    stopsAt_forEach each
  rwa [List.flatMap_eq_nil_iff.mpr fun _ _ => rfl] at together

end Output

/-! ## Fragments, arguments and commands -/

theorem stopsAt_writeFragment
    (target : Target)
    (position : Position)
    (quoting : Quoting)
    {fragment : Fragment}
    (checked : fragment.check = .ok ()) :
    ((writeFragment target position quoting fragment).andThen fun _ =>
        Output.result ()).StopsAt [] := by
  have written := writeFragment_eq_write target position quoting checked
  exact congrArg Output.outcome written

theorem stopsAt_writeEach
    (target : Target)
    (position : Position)
    (lead : List Char)
    {fragments : List Fragment}
    (checked : ∀ fragment ∈ fragments, fragment.check = .ok ()) :
    (writeEach target position lead fragments).StopsAt [] := by
  unfold writeEach
  split
  · rfl
  · refine Output.StopsAt.behind ?_ lead
    refine Output.stopsAt_separated_nil fun fragment member => ?_
    exact stopsAt_writeFragment target position .quote (checked fragment member)

/-- An argument stops the writer when it is a tool. -/
theorem stopsAt_writeArgument
    (target : Target)
    (position : Position)
    {argument : Argument}
    (checked : argument.check = .ok ()) :
    (writeArgument target position argument).StopsAt
      (Argument.toolsOf [argument]) := by
  cases argument with
  | text fragment =>
      rw [Argument.check] at checked
      exact stopsAt_writeFragment target position .quote checked
  | tool name invocation =>
      rfl

theorem toolsOf_eq_flatMap
    (arguments : List Argument) :
    Argument.toolsOf arguments =
      arguments.flatMap fun argument => Argument.toolsOf [argument] := by
  induction arguments with
  | nil =>
      rfl
  | cons argument rest inductionHypothesis =>
      rw [List.flatMap_cons, ← inductionHypothesis]
      cases argument <;> rfl

/-- Among arguments without tools each is a text. -/
theorem exists_text_of_toolless
    {arguments : List Argument}
    (toolless : Argument.toolsOf arguments = [])
    {argument : Argument}
    (member : argument ∈ arguments) :
    ∃ fragment, argument = .text fragment := by
  rw [toolsOf_eq_flatMap, List.flatMap_eq_nil_iff] at toolless
  cases argument with
  | text fragment =>
      exact ⟨fragment, rfl⟩
  | tool name invocation =>
      exact absurd (toolless _ member) (List.cons_ne_nil _ _)

theorem stopsAt_writeArguments
    (target : Target)
    (position : Position)
    (lead : List Char)
    {arguments : List Argument}
    (checked : Argument.checkAll arguments = .ok ()) :
    (writeArguments target position lead arguments).StopsAt
      (Argument.toolsOf arguments) := by
  rw [Argument.checkAll_eq_ok_iff] at checked
  unfold writeArguments
  split
  · rfl
  · refine Output.StopsAt.behind ?_ lead
    rw [toolsOf_eq_flatMap]
    refine Output.stopsAt_separated fun argument member => ?_
    exact stopsAt_writeArgument target position (checked argument member)

/-- Bindings hold no tools, so the writer stops where it would behind them. -/
theorem stopsAt_writeBindings
    (target : Target)
    {bindings : List (String × Fragment)}
    (checked : checkBindings bindings = .ok ()) :
    (writeBindings target bindings).StopsAt [] := by
  induction bindings with
  | nil =>
      rfl
  | cons binding rest inductionHypothesis =>
      rw [checkBindings_eq_ok_iff, List.forall_mem_cons,
        ← checkBindings_eq_ok_iff] at checked
      obtain ⟨bindingChecked, restChecked⟩ := checked
      have assignmentChecked := Piece.check_assignment bindingChecked
      have first : (writeBinding target binding).StopsAt [] :=
        (stopsAt_writeFragment target .shell .quote assignmentChecked).behind _
      exact first.andThen ((inductionHypothesis restChecked).behind lineSeparator)

mutual

theorem stopsAt_writeLine
    (target : Target) :
    ∀ {line : Line},
      line.check = .ok () →
      (writeLine target line).StopsAt line.tools
  | .arguments arguments, checked | .shellList arguments, checked => by
      rw [Line.check] at checked
      rw [writeLine, Line.tools]
      exact stopsAt_writeArguments target .shell [] checked
  | .script script, checked => by
      rw [Line.check] at checked
      rw [writeLine, Line.tools]
      exact stopsAt_writeFragment target .shell .never checked
  | .nested commands, checked => by
      rw [Line.check] at checked
      rw [writeLine, Line.tools]
      exact stopsAt_writeCommands target checked

theorem stopsAt_writeFurtherLines
    (target : Target) :
    ∀ {lines : List Line},
      Line.checkAll lines = .ok () →
      (writeFurtherLines target lines).StopsAt (Line.toolsOf lines)
  | [], _ => rfl
  | line :: rest, checked => by
      rw [Line.checkAll, bind_eq_ok_iff] at checked
      have first := stopsAt_writeLine target checked.1
      have others := stopsAt_writeFurtherLines target checked.2
      rw [writeFurtherLines, Line.toolsOf]
      exact (first.andThen others).behind lineSeparator

/-- A command stops the writer at its first tool, with or without an envelope. -/
theorem stopsAt_writeCommands
    (target : Target) :
    ∀ {commands : Commands},
      commands.check = .ok () →
      (writeCommands target commands).StopsAt commands.tools
  | .mk environment first rest, checked => by
      rw [Commands.check, bind_eq_ok_iff, bind_eq_ok_iff] at checked
      have bindings := stopsAt_writeBindings target checked.1
      have head := stopsAt_writeLine target checked.2.1
      have others := stopsAt_writeFurtherLines target checked.2.2
      rw [writeCommands, Commands.tools]
      -- The envelope is text alone, so it stops nothing.
      by_cases envelope : needsEnvelope target (.mk environment first rest) = true
      · simp only [envelope, ↓reduceIte]
        exact (bindings.andThen (head.andThen (others.followed _))).behind _
      · simp only [envelope, Bool.false_eq_true, ↓reduceIte,
          Output.bind_eq_andThen, Output.pure_eq_result, Output.andThen_result]
        exact bindings.andThen (head.andThen others)

end

/-- A value stops the writer at its first tool. -/
theorem stopsAt_writeValue
    (target : Target)
    (position : Position)
    {value : Value}
    (checked : value.check = .ok ()) :
    (writeValue target position value).StopsAt value.tools := by
  cases value with
  | text fragment =>
      rw [Value.check] at checked
      exact stopsAt_writeFragment target position .never checked
  | words arguments =>
      rw [Value.check] at checked
      exact stopsAt_writeArguments target position [] checked
  | sequence commands =>
      rw [Value.check] at checked
      exact stopsAt_writeCommands target checked

/-! ## Files -/

/-- An assignment stops the writer at the first tool of its value. -/
theorem stopsAt_writeAssignment
    (target : Target)
    (position : Position)
    (indent name : String)
    {value : Value}
    (checked : value.check = .ok ()) :
    (writeAssignment target position indent name value).StopsAt value.tools := by
  have line := (stopsAt_writeValue target position checked).followed "\n".toList
  exact ((line.behind " = ".toList).behind name.toList).behind indent.toList

theorem stopsAt_writeBindingLines
    (target : Target)
    {bindings : List (String × Value)}
    (checked : ∀ binding ∈ bindings, binding.2.check = .ok ())
    (toolless : ∀ binding ∈ bindings, binding.2.tools = []) :
    (writeBindingLines target bindings).StopsAt [] := by
  refine Output.stopsAt_forEach_nil fun binding member => ?_
  rw [← toolless binding member]
  exact stopsAt_writeAssignment target .shell _ _ (checked binding member)

/-- The version that a file requires is written on a single line. -/
theorem newline_notMem_requirement
    (version : Version) :
    '\n' ∉ version.requirement.toList := by
  have noNewline : ∀ number : Nat, '\n' ∉ Nat.toDigits 10 number := by
    intro number member
    have digit : '\n'.isDigit = true :=
      Nat.isDigit_of_mem_toDigits (by decide) (Nat.le_refl 10) member
    exact absurd digit (by decide)
  unfold Version.requirement
  split
  · simp [noNewline]
  · simp [noNewline]

theorem stopsAt_writeRequiredVersion
    (target : Target)
    (required : Option Version) :
    (writeRequiredVersion target required).StopsAt [] := by
  cases required with
  | none =>
      rfl
  | some version =>
      have checked :
          (Value.text (.plain version.requirement)).check = .ok () :=
        Text.checkSingleLine_eq_ok_iff.mpr (newline_notMem_requirement version)
      exact (stopsAt_writeAssignment target .shell "" _ checked).followed _

/-- A group stops the writer at the first tool in its values. -/
theorem stopsAt_writeGroup
    {file : BuildFile}
    (single : file.OnSingleLines)
    (group : VariableGroup) :
    (writeGroup file group).StopsAt
      ((file.assignmentsOf group).flatMap (·.value.tools)) := by
  unfold writeGroup
  split
  case h_1 noAssignments =>
    rw [noAssignments]
    rfl
  case h_2 assignments _ =>
    refine Output.StopsAt.followed ?_ _
    refine Output.stopsAt_forEach fun assignment member => ?_
    have declared : assignment ∈ file.assignments := List.mem_of_mem_filter member
    exact stopsAt_writeAssignment file.target _ _ _
      (single.assignments assignment declared)

/-- The bindings of a rule are its command and texts on single lines. -/
theorem mem_ruleBindings
    {rule : Rule}
    (single : rule.OnSingleLines)
    (toolless : rule.command.tools = [])
    {binding : String × Value}
    (member : binding ∈ ruleBindings rule) :
    binding.2.check = .ok () ∧ binding.2.tools = [] := by
  have one : (Value.text (.plain "1")).check = .ok () := rfl
  have poolName : ∀ pool : Pool, (Value.text (.plain pool.name)).check = .ok () := by
    rintro ⟨⟩
    rfl
  simp only [ruleBindings, List.mem_append, List.mem_singleton,
    Option.mem_toList, Option.map_eq_some_iff] at member
  rcases member with
    ((((command | ⟨depfile, present, rfl⟩) | ⟨deps, present, rfl⟩) | generator) |
      ⟨pool, _, rfl⟩) | restat
  · rw [command]
    exact ⟨single.command, toolless⟩
  · exact ⟨single.depfile depfile present, rfl⟩
  · exact ⟨single.deps deps present, rfl⟩
  · obtain rfl : binding = _ := by simpa using (List.mem_ite_nil_right.mp generator).2
    exact ⟨one, rfl⟩
  · exact ⟨poolName pool, rfl⟩
  · obtain rfl : binding = _ := by simpa using (List.mem_ite_nil_right.mp restat).2
    exact ⟨one, rfl⟩

theorem stopsAt_writeRule
    (target : Target)
    {rule : Rule}
    (single : rule.OnSingleLines)
    (toolless : rule.command.tools = []) :
    (writeRule target rule).StopsAt [] := by
  have bindings :=
    stopsAt_writeBindingLines target
      (fun binding member => (mem_ruleBindings single toolless member).1)
      (fun binding member => (mem_ruleBindings single toolless member).2)
  exact ((bindings.behind "\n".toList).behind rule.name.toList).behind _

theorem stopsAt_writeEdgeLine
    (target : Target)
    {edge : Edge}
    (single : edge.OnSingleLines) :
    (writeEdgeLine target edge).StopsAt [] := by
  have outputs := stopsAt_writeEach target .output [] single.outputs
  have inputs := stopsAt_writeEach target .input " ".toList single.inputs
  have implicit := stopsAt_writeEach target .input " | ".toList single.implicit
  have orderOnly :=
    (stopsAt_writeEach target .input " || ".toList single.orderOnly).followed
      "\n".toList
  have behindRule := inputs.andThen (implicit.andThen orderOnly)
  have behindOutputs := (behindRule.behind edge.rule.toList).behind ": ".toList
  exact (outputs.andThen behindOutputs).behind _

/-- An edge without tools is written to its end. -/
theorem stopsAt_writeEdge
    (target : Target)
    {edge : Edge}
    (single : edge.OnSingleLines)
    (toolless : ∀ value ∈ edge.overrides.values, value.tools = []) :
    (writeEdge target edge).StopsAt [] := by
  have bindings :
      (writeBindingLines target
        (edge.overrides.entries.map fun entry =>
          (entry.1.name, entry.2))).StopsAt [] := by
    refine stopsAt_writeBindingLines target ?_ ?_
    · rw [List.forall_mem_map]
      intro entry member
      exact single.overrides entry.2 (List.mem_map_of_mem member)
    · rw [List.forall_mem_map]
      intro entry member
      exact toolless entry.2 (List.mem_map_of_mem member)
  exact (stopsAt_writeEdgeLine target single).andThen bindings

theorem stopsAt_writeDefaults
    (target : Target)
    {defaults : List Fragment}
    (checked : ∀ fragment ∈ defaults, fragment.check = .ok ()) :
    (writeDefaults target defaults).StopsAt [] := by
  unfold writeDefaults
  split
  · rfl
  · exact ((stopsAt_writeEach target .input [] checked).followed _).behind _

/-- The tools in the values of variables, in the order in which they are written. -/
def toolsOfVariables (file : BuildFile) : List Tool :=
  file.groupedAssignments.flatMap (·.value.tools)

/-- A file stops the writer at the first tool in a variable, and nowhere else. -/
theorem stopsAt_writeFile
    {file : BuildFile}
    (single : file.OnSingleLines)
    (consistent : file.Consistent) :
    (writeFile file).StopsAt (toolsOfVariables file) := by
  have version := stopsAt_writeRequiredVersion file.target file.requiredVersion
  have groups :
      (Output.forEach (writeGroup file) VariableGroup.all).StopsAt
        (toolsOfVariables file) := by
    rw [toolsOfVariables, BuildFile.groupedAssignments, List.flatMap_assoc]
    exact Output.stopsAt_forEach fun group _ => stopsAt_writeGroup single group
  have rules :
      (Output.forEach
        (fun rule => do
          writeRule file.target rule
          writeString "\n")
        file.rules).StopsAt [] := by
    refine Output.stopsAt_forEach_nil fun rule member => ?_
    have toolless := consistent.graph.rulesToolless rule member
    exact
      (stopsAt_writeRule file.target (single.rules rule member) toolless).followed _
  have edges :
      (Output.forEach
        (fun edge => do
          writeEdge file.target edge
          writeString "\n")
        file.edges).StopsAt [] := by
    refine Output.stopsAt_forEach_nil fun edge member => ?_
    have toolless := consistent.graph.edgesToolless edge member
    exact
      (stopsAt_writeEdge file.target (single.edges edge member) toolless).followed _
  have defaults := stopsAt_writeDefaults file.target single.defaults
  have behindGroups := rules.andThen (edges.andThen defaults)
  have body := version.andThen (groups.andThen behindGroups)
  simp only [List.nil_append, List.append_nil] at body
  exact body.behind _

/-- There are tools in variables just when some assigned value holds one. -/
theorem toolsOfVariables_ne_nil_iff
    {file : BuildFile} :
    toolsOfVariables file ≠ [] ↔
      ∃ group, ∃ assignment ∈ file.assignmentsOf group,
        assignment.value.tools ≠ [] := by
  have someTool :
      toolsOfVariables file ≠ [] ↔
        ∃ assignment ∈ file.groupedAssignments, assignment.value.tools ≠ [] := by
    simp [toolsOfVariables]
  rw [someTool]
  constructor
  · rintro ⟨assignment, member, holdsTool⟩
    obtain ⟨group, inGroup⟩ := BuildFile.mem_groupedAssignments_iff.mp member
    exact ⟨group, assignment, inGroup, holdsTool⟩
  · rintro ⟨group, assignment, inGroup, holdsTool⟩
    have member := BuildFile.mem_groupedAssignments_iff.mpr ⟨group, inGroup⟩
    exact ⟨assignment, member, holdsTool⟩

/-- A reachable file is generated whole, up to the first tool in a variable. -/
theorem generate_eq
    {file : BuildFile}
    (reachable : file.Reachable) :
    generate file =
      (stopAt (toolsOfVariables file)).map
        fun _ => String.ofList (writeFile file).text := by
  have stops := stopsAt_writeFile reachable.onSingleLines reachable.consistent
  rw [generate, Output.toText, stops]

/-- The error is that of the first tool in the variables, in the order of writing. -/
theorem generate_eq_error_iff
    {file : BuildFile}
    (reachable : file.Reachable)
    {error : RenderError} :
    generate file = .error error ↔
      ∃ tool, (toolsOfVariables file).head? = some tool ∧ .unconvertedTool tool.name = error := by
  rw [generate_eq reachable]
  cases toolsOfVariables file with
  | nil =>
      simp [stopAt, Except.map]
  | cons tool rest =>
      simp [stopAt, Except.map]

/-- A place without a limit takes every output, and fails just as the output does. -/
theorem take_unlimited
    (output : Output Unit) :
    (Sink.take { capacity := none } output).1 =
      output.outcome.mapError .render := by
  have accepted : Sink.accepts { capacity := none } output.text = true := by
    simp [Sink.accepts]
  rw [Sink.take, if_pos accepted]

/--
A reachable file fails to render just when a variable holds a tool.  The error names the
first tool in the order of writing; neither a line break nor the place that the text goes
to is ever its reason.
-/
theorem generate_fails_iff
    {file : BuildFile}
    (reachable : file.Reachable) :
    ((∃ error, generate file = .error error) ↔
        ∃ group, ∃ assignment ∈ file.assignmentsOf group,
          assignment.value.tools ≠ []) ∧
      (∀ error,
        generate file = .error error →
        ∃ tool,
          (VariableGroup.all.flatMap fun group =>
              (file.assignmentsOf group).flatMap (·.value.tools)).head? =
            some tool ∧
          error = .unconvertedTool tool.name) ∧
      ∀ error,
        (Sink.take { capacity := none } (writeFile file)).1 = .error error →
        ∃ cause, generate file = .error cause ∧ error = .render cause := by
  have generated := generate_eq reachable
  have stops := stopsAt_writeFile reachable.onSingleLines reachable.consistent
  have inOrder :
      (VariableGroup.all.flatMap fun group =>
          (file.assignmentsOf group).flatMap (·.value.tools)) =
        toolsOfVariables file := by
    rw [toolsOfVariables, BuildFile.groupedAssignments, List.flatMap_assoc]
  rw [← toolsOfVariables_ne_nil_iff, take_unlimited, stops, generated, inOrder]
  cases toolsOfVariables file with
  | nil =>
      refine ⟨⟨?_, ?_⟩, ?_, ?_⟩
      · rintro ⟨error, failed⟩
        cases failed
      · intro someTool
        exact absurd rfl someTool
      · intro error failed
        cases failed
      · intro error failed
        cases failed
  | cons tool rest =>
      refine ⟨⟨?_, ?_⟩, ?_, ?_⟩
      · intro _
        exact List.cons_ne_nil tool rest
      · intro _
        exact ⟨.unconvertedTool tool.name, rfl⟩
      · intro error failed
        cases failed
        exact ⟨tool, rfl, rfl⟩
      · intro error failed
        cases failed
        exact ⟨.unconvertedTool tool.name, rfl, rfl⟩

/--
Of two tools in variables the one in the group that is written first stops the writer,
though it was declared last, after a rejected declaration.
-/
theorem generate_fails_nestedTool :
    let withTool := fun name =>
      Value.sequence
        (.single
          (.nested (.single (.shellList [.tool name (.text (.plain "gcc"))]))))
    let file :=
      BuildFile.run
        [.declareVariable (.ofString "late") (withTool "cxx") .other false,
          .declareVariable (.ofString "late") (withTool "ld") .path false,
          .declareVariable (.ofString "early") (withTool "cc") .flags false]
        (.empty "build.yaml" (.forPlatform .linux))
    (∃ error, generate file = .error error) ∧
      ∀ error, generate file = .error error → error = .unconvertedTool "cc" := by
  intro withTool file
  have reachable : file.Reachable := ⟨_, _, _, rfl⟩
  obtain ⟨fails, namesFirst, _⟩ := generate_fails_iff reachable
  refine ⟨fails.mpr ⟨.flags, _, List.mem_cons_self, List.cons_ne_nil _ _⟩, ?_⟩
  intro error failed
  obtain ⟨tool, isFirst, rfl⟩ := namesFirst error failed
  obtain rfl : _ = tool := Option.some.inj isFirst
  rfl

end BuildGraph.Ninja
