import BuildGraph.Proofs.Pieces
import BuildGraph.Proofs.Rendering
import BuildGraph.Proofs.Runs
import BuildGraph.Proofs.Statements

namespace BuildGraph

/-!
# Collapsed commands

A rule keeps a lone argument vector as bare words, and an edge keeps the same command whole.
Both are written alike: in front of words there is neither an envelope nor a binding that
could be lost with the command around them.  This is stated for what a reader finds in the
generated text behind the names in the two blocks.
-/

theorem Table.find?_mapValues
    [DecidableEq α]
    (table : Table α β)
    (change : β → Result)
    (key : α) :
    (table.mapValues change).find? key = (table.find? key).map change := by
  simp [find?, mapValues, List.find?_map, Function.comp_def]

namespace Ninja

/-! ## What a block binds -/

/-- The text behind a lead, if a line begins with it. -/
def behind? (lead line : List Char) : Option (List Char) :=
  if lead <+: line then some (line.drop lead.length) else none

/-- The text that a block binds to a name: that of the first of its bindings with the name. -/
def boundText? (name : String) (block : List (List Char)) : Option (List Char) :=
  block.tail.findSome? (behind? (indentation.toList ++ (name.toList ++ " = ".toList)))

/-- The blocks of a body, between its empty lines. -/
def readBlocks (body : List Char) : List (List (List Char)) :=
  (Text.linesOf body).splitOn []

theorem behind?_ownName
    (target : Target)
    (binding : String × Value) :
    behind? (indentation.toList ++ (binding.1.toList ++ " = ".toList))
        (bindingLine target binding) =
      some (writeValue target .shell binding.2).text := by
  have shape :
      bindingLine target binding =
        (indentation.toList ++ (binding.1.toList ++ " = ".toList)) ++
          (writeValue target .shell binding.2).text := by
    simp [bindingLine, assignmentLine]
  rw [behind?, shape, if_pos (List.prefix_append _ _), List.drop_left]

/-- A text stands behind no name but the one that its line begins with. -/
theorem eq_of_behind?
    (indent : List Char)
    {name word : String}
    (nameSpaceless : ' ' ∉ name.toList)
    (wordSpaceless : ' ' ∉ word.toList)
    {rest value : List Char}
    (read :
      behind? (indent ++ (name.toList ++ " = ".toList))
          (indent ++ (word.toList ++ ' ' :: rest)) =
        some value) :
    word = name := by
  rw [behind?] at read
  split at read
  case isTrue begins =>
    have behindIndent := (List.prefix_append_right_inj indent).mp begins
    have spaced : name.toList ++ [' '] <+: name.toList ++ " = ".toList :=
      (List.prefix_append_right_inj _).mpr (by decide)
    have beginsWithName : beginsWith name (word.toList ++ ' ' :: rest) = true := by
      rw [beginsWith, decide_eq_true_iff]
      exact spaced.trans behindIndent
    exact (beginsWith_iff nameSpaceless wordSpaceless rest).mp beginsWithName
  case isFalse =>
    contradiction

theorem behind?_bindingLine
    (target : Target)
    {name : String}
    (nameSpaceless : ' ' ∉ name.toList)
    {binding : String × Value}
    (bindingSpaceless : ' ' ∉ binding.1.toList) :
    behind? (indentation.toList ++ (name.toList ++ " = ".toList))
        (bindingLine target binding) =
      if binding.1 = name then
        some (writeValue target .shell binding.2).text
      else
        none := by
  by_cases sameName : binding.1 = name
  · rw [if_pos sameName, ← sameName, behind?_ownName]
  · rw [if_neg sameName]
    cases read :
        behind? (indentation.toList ++ (name.toList ++ " = ".toList))
          (bindingLine target binding) with
    | none =>
        rfl
    | some value =>
        exact absurd (eq_of_behind? _ nameSpaceless bindingSpaceless read) sameName

/-- Of bindings with proper names the first with a name is found. -/
theorem findSome?_bindingLines
    (target : Target)
    {name : String}
    (nameSpaceless : ' ' ∉ name.toList)
    {bindings : List (String × Value)}
    (spaceless : ∀ binding ∈ bindings, ' ' ∉ binding.1.toList) :
    (bindings.map (bindingLine target)).findSome?
        (behind? (indentation.toList ++ (name.toList ++ " = ".toList))) =
      (bindings.find? (·.1 = name)).map fun binding =>
        (writeValue target .shell binding.2).text := by
  induction bindings with
  | nil =>
      rfl
  | cons binding rest inductionHypothesis =>
      rw [List.forall_mem_cons] at spaceless
      rw [List.map_cons, List.findSome?_cons,
        behind?_bindingLine target nameSpaceless spaceless.1, List.find?_cons,
        inductionHypothesis spaceless.2]
      by_cases sameName : binding.1 = name
      · simp [sameName]
      · simp [sameName]

/-- The command of a rule is what its block binds under that name. -/
theorem boundText?_ruleBlock
    (target : Target)
    (rule : Rule) :
    boundText? "command" (ruleBlock target rule) =
      some (writeValue target .shell rule.command).text := by
  have first := behind?_ownName target ("command", rule.command)
  simp only [boundText?, ruleBlock, List.tail_cons, ruleBindings, List.append_assoc,
    List.cons_append, List.nil_append, List.map_cons, List.findSome?_cons, first]

/-- What an edge overrides a variable with is what its block binds to the name. -/
theorem boundText?_edgeBlock
    (target : Target)
    {edge : Edge}
    {var : Variable}
    {value : Value}
    (overridden : edge.overrides.find? var = some value) :
    boundText? var.name (edgeBlock target edge) =
      some (writeValue target .shell value).text := by
  have sameKey :
      ∀ entry : Variable × Value,
        decide (entry.1.name = var.name) = decide (entry.1 = var) := by
    intro entry
    exact decide_eq_decide.mpr ⟨Variable.eq_of_name, congrArg Variable.name⟩
  have lines :
      (edgeBlock target edge).tail =
        (edge.overrides.entries.map fun entry => (entry.1.name, entry.2)).map
          (bindingLine target) := by
    rw [edgeBlock, List.tail_cons, List.map_map]
    rfl
  have spaceless (name : Variable) : ' ' ∉ name.name.toList :=
    notMem_of_nameCharacters (by decide) name.normalised
  obtain ⟨entry, found, rfl⟩ := Option.map_eq_some_iff.mp overridden
  rw [boundText?, lines, findSome?_bindingLines target (spaceless var), List.find?_map]
  · simp only [Function.comp_def, sameKey, found]
    rfl
  · rintro _ member
    obtain ⟨other, _, rfl⟩ := List.mem_map.mp member
    exact spaceless other.1

theorem layout_eq_intercalate
    (blocks : List (List (List Char)))
    (closing : List (List Char)) :
    layout blocks closing = [[]].intercalate (blocks ++ [closing]) := by
  induction blocks with
  | nil =>
      simp [layout]
  | cons block rest inductionHypothesis =>
      have others : rest ++ [closing] ≠ [] := by
        simp
      rw [List.cons_append, List.intercalate_cons_of_ne_nil others, ← inductionHypothesis]
      simp [layout]

/-- The blocks of a file are read back between empty lines. -/
theorem readBlocks_layout
    {file : BuildFile}
    (consistent : file.Consistent) :
    readBlocks (Text.unlines (layout (blocksOf file) (closingLines file))) =
      blocksOf file ++ [closingLines file] := by
  rw [readBlocks, linesOf_layout consistent, layout_eq_intercalate]
  apply List.splitOn_intercalate
  · intro block member blank
    rcases List.mem_append.mp member with inBlocks | isClosing
    · exact ((filledLine_of_mem_blocksOf consistent inBlocks).2 [] blank).notEmpty rfl
    · obtain rfl := List.mem_singleton.mp isClosing
      exact (filledLine_of_mem_closingLines blank).notEmpty rfl
  · simp

/-! ## Commands without their envelope -/

theorem Output.eq_write_of_ended
    {output : Output Unit}
    (ended : output.outcome = .ok ()) :
    output = write output.text := by
  obtain ⟨text, outcome⟩ := output
  obtain rfl : outcome = .ok () := ended
  rfl

/-- Write a command without an envelope of its own. -/
def writeUnwrapped (target : Target) : Commands → Output Unit
  | .mk environment first rest => do
      writeBindings target environment.entries
      writeLine target first
      writeFurtherLines target rest

/-- The text of a command in the envelope of a Windows shell. -/
def inEnvelope (text : List Char) : List Char :=
  "cmd /s /c \"".toList ++ (text ++ "\"".toList)

theorem writeCommands_eq_unwrapped
    (target : Target)
    (commands : Commands) :
    writeCommands target commands =
      if needsEnvelope target commands then do
        Output.write "cmd /s /c \"".toList
        writeUnwrapped target commands
        Output.write "\"".toList
      else
        writeUnwrapped target commands := by
  obtain ⟨environment, first, rest⟩ := commands
  rw [writeCommands, writeUnwrapped]
  by_cases envelope : needsEnvelope target (.mk environment first rest) = true
  · simp only [envelope, ↓reduceIte, Output.bind_eq_andThen, Output.andThen_assoc]
  · simp only [envelope, Bool.false_eq_true, ↓reduceIte, Output.bind_eq_andThen,
      Output.pure_eq_result, Output.andThen_result]

/-- A command is written as the value that it collapses to. -/
theorem writeValue_toValue
    (target : Target)
    (commands : Commands) :
    writeValue target .shell commands.toValue = writeCommands target commands := by
  rcases commands.toValue_cases with same | ⟨environment, arguments, rfl, noBindings, bare⟩
  · rw [same, writeValue]
  · have noEnvelope :
        needsEnvelope target (.mk environment (.arguments arguments) []) = false := by
      simp [needsEnvelope, Commands.needsShell, noBindings]
    rw [bare, writeValue, writeCommands_eq_unwrapped, noEnvelope]
    simp [writeUnwrapped, noBindings, writeBindings, writeLine, writeFurtherLines]

/-- An envelope is for commands on Windows that are no lone argument vectors. -/
theorem needsEnvelope_withReferences_iff
    {target : Target}
    {command : Commands} :
    needsEnvelope target command.withReferences = true ↔
      target.platform.family = .windows ∧
        ¬ ((∃ arguments, command.lines = [.arguments arguments]) ∧
          command.environment.entries = []) := by
  rw [needsEnvelope, Commands.needsShell_withReferences, Bool.and_eq_true,
    decide_eq_true_iff, and_comm, ← Commands.needsShell_eq_false_iff,
    Bool.not_eq_false]

/-- What is written of a command around the text of its bindings and lines. -/
theorem text_writeCommands
    {target : Target}
    {commands : Commands}
    (ended : (writeCommands target commands).outcome = .ok ()) :
    (writeCommands target commands).text =
      if needsEnvelope target commands then
        inEnvelope (writeUnwrapped target commands).text
      else
        (writeUnwrapped target commands).text := by
  rw [writeCommands_eq_unwrapped] at ended ⊢
  by_cases envelope : needsEnvelope target commands = true
  · rw [if_pos envelope] at ended ⊢
    have enveloped :=
      (Output.completes_write "cmd /s /c \"".toList).andThen
        ((Output.completes_self (writeUnwrapped target commands)).andThen
          (Output.completes_write "\"".toList))
    rw [if_pos envelope]
    exact enveloped ended
  · rw [if_neg envelope, if_neg envelope]

/-- The value of a rule in a reachable file is written whole. -/
theorem outcome_writeValue_of_mem_rules
    {file : BuildFile}
    (reachable : file.Reachable)
    {rule : Rule}
    (member : rule ∈ file.rules) :
    (writeValue file.target .shell rule.command).outcome = .ok () := by
  have stops :=
    stopsAt_writeValue file.target .shell (reachable.onSingleLines.rules rule member).command
  rw [reachable.consistent.graph.rulesToolless rule member] at stops
  exact stops

/-- A generated text holds the blocks of the rules and then those of the edges, in order. -/
theorem readBlocks_of_generate
    {file : BuildFile}
    (reachable : file.Reachable)
    {text : String}
    (generated : generate file = .ok text) :
    ∃ body front closing,
      text.toList = (header file.source).toList ++ body ∧
      readBlocks body =
        front ++
          (file.rules.map (ruleBlock file.target) ++
              file.edges.map (edgeBlock file.target)) ++
            [closing] := by
  refine ⟨_, versionBlocks file ++ VariableGroup.all.flatMap (groupBlocks file),
    closingLines file, toList_eq_of_generate generated, ?_⟩
  rw [readBlocks_layout reachable.consistent]
  simp only [blocksOf, List.append_assoc]

/--
Where a file accepts the same command for a rule and as an override of an edge, the same
text is written for both: that of the command with references in the place of tools.  The
rule keeps bare words just if the command is a lone argument vector without bindings, and
just for other commands there is an envelope on Windows, in both places.
-/
theorem boundText?_command_eq_override
    {source : String}
    {target : Target}
    {operations : List Operation}
    {name : String}
    {command : Commands}
    {options : RuleOptions}
    {edge : Edge}
    {var : Variable}
    {text : String}
    (ruleAccepted :
      .declareRule name command options ∈
        BuildFile.accepted operations (.empty source target))
    (edgeAccepted :
      .declareEdge edge ∈ BuildFile.accepted operations (.empty source target))
    (overridden : edge.overrides.find? var = some (.sequence command))
    (generated : generate (BuildFile.run operations (.empty source target)) = .ok text) :
    let file := BuildFile.run operations (.empty source target)
    let isDirect :=
      (∃ arguments, command.lines = [.arguments arguments]) ∧
        command.environment.entries = []
    let unwrapped := (writeUnwrapped target command.withReferences).text
    ∃ written body front closing,
      text.toList = (header source).toList ++ body ∧
      readBlocks body =
        front ++
          (file.rules.map (ruleBlock target) ++ file.edges.map (edgeBlock target)) ++
            [closing] ∧
      (∃ rule ∈ file.rules,
        rule.name = name ∧
          boundText? "command" (ruleBlock target rule) = some written ∧
          ((∃ arguments, rule.command = .words arguments) ↔ isDirect)) ∧
      (∃ stored ∈ file.edges,
        stored.outputs = edge.outputs ∧
          boundText? var.name (edgeBlock target stored) = some written) ∧
      writeCommands target command.withReferences = Output.write written ∧
      (target.platform.family = .windows ∧ ¬ isDirect → written = inEnvelope unwrapped) ∧
      (¬ (target.platform.family = .windows ∧ ¬ isDirect) → written = unwrapped) := by
  intro file isDirect unwrapped
  have reachable : file.Reachable := ⟨source, target, operations, rfl⟩
  have started := BuildFile.Extends.run operations (.empty source target)
  have sameSource : file.source = source := started.source
  have sameTarget : file.target = target := started.target
  obtain ⟨pool, _, declares⟩ := BuildFile.rule?_of_mem_accepted ruleAccepted
  let rule := Rule.ofDeclaration name command options pool
  have ruleMember : rule ∈ file.rules :=
    BuildFile.mem_rules_run_of_accepted ruleAccepted declares
  have edgeMember : edge.withReferences ∈ file.edges :=
    BuildFile.mem_edges_run_of_accepted edgeAccepted rfl
  have ruleWritten :
      writeValue target .shell rule.command =
        writeCommands target command.withReferences :=
    writeValue_toValue target command.withReferences
  -- The override is written like the rule's value, so that it ends is known from the rule.
  have ended : (writeCommands target command.withReferences).outcome = .ok () := by
    rw [← ruleWritten, ← sameTarget]
    exact outcome_writeValue_of_mem_rules reachable ruleMember
  have storedOverride :
      edge.withReferences.overrides.find? var =
        some (.sequence command.withReferences) := by
    rw [Edge.withReferences, Table.find?_mapValues, overridden]
    rfl
  have enveloped := text_writeCommands ended
  obtain ⟨body, front, closing, textShape, blocks⟩ := readBlocks_of_generate reachable generated
  rw [sameSource] at textShape
  rw [sameTarget] at blocks
  refine ⟨(writeCommands target command.withReferences).text, body, front, closing, textShape,
    blocks, ⟨rule, ruleMember, rfl, ?_, ?_⟩, ⟨_, edgeMember, rfl, ?_⟩, ?_, ?_, ?_⟩
  · rw [boundText?_ruleBlock, ruleWritten]
  · exact Commands.toValue_withReferences_eq_words_iff
  · exact boundText?_edgeBlock target storedOverride
  · exact Output.eq_write_of_ended ended
  · intro needed
    rw [enveloped, if_pos (needsEnvelope_withReferences_iff.mpr needed)]
  · intro notNeeded
    rw [enveloped, if_neg (mt needsEnvelope_withReferences_iff.mp notNeeded)]

/-- A command with a binding and a tool at a depth, written for Windows. -/
theorem boundText?_command_eq_override_windows :
    let compiler := Argument.tool "c++" (.words [.text (.plain "cl")])
    let compile := Commands.single (.arguments [compiler, .text (.plain "a b")])
    let command :=
      Commands.mk (Table.empty.insert "LIB" (.plain "out")) (.nested compile) []
    let edge : Edge :=
      { outputs := [.plain "a b"]
        rule := "compile"
        overrides := Table.empty.insert (.ofString "my cmd") (.sequence command) }
    let operations : List Operation :=
      [.declareVariable (.ofString "c__") (.text (.plain "clang")) .other false,
        .declareRule "compile" command {},
        .declareEdge edge]
    let target := Target.forPlatform .windows
    let file := BuildFile.run operations (.empty "build.yaml" target)
    let written := "cmd /s /c \"export LIB=out && $\x7bc__\x7d 'a b'\"".toList
    (generate file).isOk = true ∧
      (∃ rule ∈ file.rules,
        rule.name = "compile" ∧ boundText? "command" (ruleBlock target rule) = some written) ∧
      ∃ stored ∈ file.edges,
        stored.outputs = edge.outputs ∧
          boundText? "my_cmd" (edgeBlock target stored) = some written := by
  intro compiler compile command edge operations target file written
  have calls : BuildFile.accepted operations (.empty "build.yaml" target) = operations := rfl
  have ruleAccepted :
      .declareRule "compile" command {} ∈
        BuildFile.accepted operations (.empty "build.yaml" target) := by
    rw [calls]
    simp [operations]
  have edgeAccepted :
      .declareEdge edge ∈ BuildFile.accepted operations (.empty "build.yaml" target) := by
    rw [calls]
    simp [operations]
  have ended : (writeFile file).outcome = .ok () := by
    decide +kernel
  have overridden :
      edge.overrides.find? (.ofString "my cmd") = some (.sequence command) :=
    rfl
  have commandText : (writeCommands target command.withReferences).text = written := by
    decide +kernel
  obtain ⟨found, _, _, _, _, _, ⟨rule, ruleMember, sameName, ruleText, _⟩,
      ⟨stored, storedMember, sameOutputs, storedText⟩, whole, _⟩ :=
    boundText?_command_eq_override ruleAccepted edgeAccepted overridden
      (generate_of_ended ended)
  obtain rfl : written = found := commandText.symm.trans (congrArg Output.text whole)
  refine ⟨?_, ⟨rule, ruleMember, sameName, ruleText⟩,
    ⟨stored, storedMember, sameOutputs, storedText⟩⟩
  rw [generate_of_ended ended]
  rfl

end Ninja

end BuildGraph
