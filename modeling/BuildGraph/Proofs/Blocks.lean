import BuildGraph.Proofs.Consistency
import BuildGraph.Proofs.Lines
import Mathlib.Data.List.Chain

namespace BuildGraph

namespace Ninja

/-!
# Blocks of a build file

Behind its header a build file consists of blocks of lines, with an empty line behind each
of them, and of a closing line.  Here the lines are plain functions of the file, and the
writers are proved to write just these: no value, whatever is in it, adds a line or takes
one away.
-/

/-! ## Lines and blocks -/

/-- The line of an assignment. -/
def assignmentLine
    (target : Target)
    (position : Position)
    (indent name : String)
    (value : Value) :
    List Char :=
  indent.toList ++
    (name.toList ++ (" = ".toList ++ (writeValue target position value).text))

/-- The line of a binding of a rule or an edge. -/
def bindingLine (target : Target) (binding : String × Value) : List Char :=
  assignmentLine target .shell indentation binding.1 binding.2

/-- The block of the required version, if there is one. -/
def versionBlocks (file : BuildFile) : List (List (List Char)) :=
  file.requiredVersion.toList.map fun version =>
    [assignmentLine file.target .shell "" "ninja_required_version"
      (.text (.plain version.requirement))]

/-- The block of a group, if anything is assigned in it: a line for each assignment. -/
def groupBlocks (file : BuildFile) (group : VariableGroup) : List (List (List Char)) :=
  match file.assignmentsOf group with
  | [] => []
  | assignments =>
      [assignments.map fun assignment =>
        assignmentLine file.target (groupPosition group) "" assignment.target.name
          assignment.value]

/-- The block of a rule: its name, and a line for each binding. -/
def ruleBlock (target : Target) (rule : Rule) : List (List Char) :=
  ("rule ".toList ++ rule.name.toList) :: (ruleBindings rule).map (bindingLine target)

/-- How many options of a rule are set. -/
def setOptions (rule : Rule) : Nat :=
  [rule.depfile.isSome, rule.deps.isSome, rule.generator, rule.pool.isSome,
    rule.restat].count true

/-- The line that says what an edge builds from what. -/
def edgeLine (target : Target) (edge : Edge) : List Char :=
  "build ".toList ++
    ((writeEach target .output [] edge.outputs).text ++
      (": ".toList ++
        (edge.rule.toList ++
          ((writeEach target .input " ".toList edge.inputs).text ++
            ((writeEach target .input " | ".toList edge.implicit).text ++
              (writeEach target .input " || ".toList edge.orderOnly).text)))))

/-- The block of an edge: what it builds, and a line for each override. -/
def edgeBlock (target : Target) (edge : Edge) : List (List Char) :=
  edgeLine target edge ::
    edge.overrides.entries.map fun entry => bindingLine target (entry.1.name, entry.2)

/-- The blocks of a file, in the order in which they are written. -/
def blocksOf (file : BuildFile) : List (List (List Char)) :=
  versionBlocks file ++
    (VariableGroup.all.flatMap (groupBlocks file) ++
      (file.rules.map (ruleBlock file.target) ++
        file.edges.map (edgeBlock file.target)))

/-- The line of the default targets, if there are any. -/
def closingLines (file : BuildFile) : List (List Char) :=
  match file.defaults with
  | [] => []
  | defaults => ["default ".toList ++ (writeEach file.target .input [] defaults).text]

/-- Blocks with an empty line behind each, and a closing in the end. -/
def layout (blocks : List (List (List Char))) (closing : List (List Char)) :
    List (List Char) :=
  (blocks.flatMap fun block => block ++ [[]]) ++ closing

/-! ## Writers write their lines -/

namespace Output

/-- An output that comes to its end has written this text. -/
def Completes (output : Output Unit) (text : List Char) : Prop :=
  output.outcome = .ok () → output.text = text

theorem completes_self
    (output : Output Unit) :
    output.Completes output.text :=
  fun _ => rfl

theorem completes_write
    (text : List Char) :
    (write text).Completes text :=
  fun _ => rfl

theorem Completes.congr
    {output : Output Unit}
    {text others : List Char}
    (completes : output.Completes text)
    (same : text = others) :
    output.Completes others :=
  same ▸ completes

/-- Of two outputs that both come to their ends the texts follow each other. -/
theorem Completes.andThen
    {first second : Output Unit}
    {text others : List Char}
    (firstText : first.Completes text)
    (secondText : second.Completes others) :
    (first.andThen fun _ => second).Completes (text ++ others) := by
  rcases first with ⟨written, error | ⟨⟩⟩
  · intro ended
    cases ended
  · intro ended
    obtain rfl : written = text := firstText rfl
    obtain rfl : second.text = others := secondText ended
    rfl

theorem completes_forEach
    {write : Item → Output Unit}
    {textOf : Item → List Char}
    (each : ∀ item, (write item).Completes (textOf item))
    (items : List Item) :
    (forEach write items).Completes (items.flatMap textOf) := by
  induction items with
  | nil =>
      exact completes_write []
  | cons item rest inductionHypothesis =>
      exact (each item).andThen inductionHypothesis

end Output

open Output

theorem completes_writeAssignment
    (target : Target)
    (position : Position)
    (indent name : String)
    (value : Value) :
    (writeAssignment target position indent name value).Completes
      (Text.unlines [assignmentLine target position indent name value]) := by
  have ended :=
    (completes_write indent.toList).andThen
      ((completes_write name.toList).andThen
        ((completes_write " = ".toList).andThen
          ((completes_self (writeValue target position value)).andThen
            (completes_write ['\n']))))
  refine ended.congr ?_
  simp only [Text.unlines_singleton, assignmentLine, List.append_assoc]

theorem completes_writeBindingLines
    (target : Target)
    (bindings : List (String × Value)) :
    (writeBindingLines target bindings).Completes
      (Text.unlines (bindings.map (bindingLine target))) := by
  have each :=
    completes_forEach
      (fun binding : String × Value =>
        completes_writeAssignment target .shell indentation binding.1 binding.2)
      bindings
  rwa [← Text.unlines_flatMap, ← List.map_eq_flatMap] at each

/-- The empty line behind a block belongs to its text. -/
theorem Output.Completes.behindBlock
    {output : Output Unit}
    {block : List (List Char)}
    (ended : output.Completes (Text.unlines block)) :
    (output.andThen fun _ => writeString "\n").Completes
      (Text.unlines (block ++ [[]])) := by
  rw [Text.unlines_append]
  exact ended.andThen (completes_write _)

theorem completes_writeRequiredVersion
    (file : BuildFile) :
    (writeRequiredVersion file.target file.requiredVersion).Completes
      (Text.unlines (layout (versionBlocks file) [])) := by
  unfold versionBlocks
  cases file.requiredVersion with
  | none =>
      exact completes_write []
  | some version =>
      exact (completes_writeAssignment file.target .shell "" _ _).behindBlock

theorem completes_writeGroup
    (file : BuildFile)
    (group : VariableGroup) :
    (writeGroup file group).Completes
      (Text.unlines (layout (groupBlocks file group) [])) := by
  unfold writeGroup groupBlocks
  cases file.assignmentsOf group with
  | nil =>
      exact completes_write []
  | cons first rest =>
      have each :=
        completes_forEach
          (fun assignment : Assignment =>
            completes_writeAssignment file.target (groupPosition group) ""
              assignment.target.name assignment.value)
          (first :: rest)
      rw [← Text.unlines_flatMap, ← List.map_eq_flatMap] at each
      exact each.behindBlock.congr (by simp [layout])

theorem completes_writeRule
    (target : Target)
    (rule : Rule) :
    (writeRule target rule).Completes (Text.unlines (ruleBlock target rule)) := by
  have ended :=
    (completes_write "rule ".toList).andThen
      ((completes_write rule.name.toList).andThen
        ((completes_write ['\n']).andThen
          (completes_writeBindingLines target (ruleBindings rule))))
  exact ended.congr (by simp [Text.unlines, ruleBlock])

theorem completes_writeEdge
    (target : Target)
    (edge : Edge) :
    (writeEdge target edge).Completes (Text.unlines (edgeBlock target edge)) := by
  have line :
      (writeEdgeLine target edge).Completes (Text.unlines [edgeLine target edge]) := by
    have ended :=
      (completes_write "build ".toList).andThen
        ((completes_self (writeEach target .output [] edge.outputs)).andThen
          ((completes_write ": ".toList).andThen
            ((completes_write edge.rule.toList).andThen
              ((completes_self (writeEach target .input " ".toList edge.inputs)).andThen
                ((completes_self
                    (writeEach target .input " | ".toList edge.implicit)).andThen
                  ((completes_self
                      (writeEach target .input " || ".toList edge.orderOnly)).andThen
                    (completes_write ['\n'])))))))
    refine ended.congr ?_
    unfold edgeLine
    simp only [Text.unlines_singleton, List.append_assoc]
  have ended :=
    line.andThen
      (completes_writeBindingLines target
        (edge.overrides.entries.map fun entry => (entry.1.name, entry.2)))
  rw [← Text.unlines_append, List.map_map] at ended
  exact ended

theorem completes_writeDefaults
    (file : BuildFile) :
    (writeDefaults file.target file.defaults).Completes
      (Text.unlines (closingLines file)) := by
  unfold closingLines
  cases file.defaults with
  | nil =>
      exact completes_write []
  | cons first rest =>
      have ended :=
        (completes_write "default ".toList).andThen
          ((completes_self
              (writeEach file.target .input [] (first :: rest))).andThen
            (completes_write ['\n']))
      exact ended.congr (by simp [Text.unlines])

/-- Blocks are laid out kind by kind. -/
theorem layout_blocksOf
    (file : BuildFile) :
    layout (blocksOf file) (closingLines file) =
      layout (versionBlocks file) [] ++
        ((VariableGroup.all.flatMap fun group => layout (groupBlocks file group) []) ++
          ((file.rules.flatMap fun rule => ruleBlock file.target rule ++ [[]]) ++
            ((file.edges.flatMap fun edge => edgeBlock file.target edge ++ [[]]) ++
              closingLines file))) := by
  simp [layout, blocksOf, List.flatMap_assoc, List.flatMap_map]

/-- A body that is written to its end consists of the blocks and the closing line. -/
theorem completes_writeBody
    (file : BuildFile) :
    (writeBody file).Completes
      (Text.unlines (layout (blocksOf file) (closingLines file))) := by
  have groups :=
    completes_forEach (completes_writeGroup file) VariableGroup.all
  have rules :=
    completes_forEach
      (fun rule => (completes_writeRule file.target rule).behindBlock) file.rules
  have edges :=
    completes_forEach
      (fun edge => (completes_writeEdge file.target edge).behindBlock) file.edges
  have ended :=
    (completes_writeRequiredVersion file).andThen
      (groups.andThen (rules.andThen (edges.andThen (completes_writeDefaults file))))
  simp only [← Text.unlines_flatMap, ← Text.unlines_append] at ended
  rwa [← layout_blocksOf] at ended

/-! ## Lines stay whole -/

/-- A line that says something, and is not cut in two by a line break. -/
structure FilledLine (line : List Char) : Prop where
  notEmpty : line ≠ []
  single : '\n' ∉ line

theorem filledLine_assignmentLine
    (target : Target)
    (position : Position)
    {indent name : String}
    (indentSingle : '\n' ∉ indent.toList)
    (nameSingle : '\n' ∉ name.toList)
    (value : Value) :
    FilledLine (assignmentLine target position indent name value) where
  notEmpty := by
    simp [assignmentLine]
  single := by
    have valueSingle : '\n' ∉ (writeValue target position value).text :=
      onOneLine_writeValue target position value
    simp [assignmentLine, indentSingle, nameSingle, valueSingle]

theorem filledLine_bindingLine
    (target : Target)
    {binding : String × Value}
    (nameSingle : '\n' ∉ binding.1.toList) :
    FilledLine (bindingLine target binding) :=
  filledLine_assignmentLine target .shell (by decide) nameSingle binding.2

/-- Fragments of an edge stay on its line, so only its rule could break it. -/
theorem filledLine_edgeLine
    (target : Target)
    {edge : Edge}
    (ruleSingle : '\n' ∉ edge.rule.toList) :
    FilledLine (edgeLine target edge) where
  notEmpty := by
    unfold edgeLine
    simp
  single := by
    have fragmentsSingle :
        ∀ position fragments,
          '\n' ∉ (writeEach target position [] fragments).text ∧
            '\n' ∉ (writeEach target position " ".toList fragments).text ∧
            '\n' ∉ (writeEach target position " | ".toList fragments).text ∧
            '\n' ∉ (writeEach target position " || ".toList fragments).text := by
      intro position fragments
      refine ⟨?_, ?_, ?_, ?_⟩ <;>
        exact onOneLine_writeEach target position (by decide) fragments
    obtain ⟨outputs, _, _, _⟩ := fragmentsSingle .output edge.outputs
    obtain ⟨_, inputs, _, _⟩ := fragmentsSingle .input edge.inputs
    obtain ⟨_, _, implicit, _⟩ := fragmentsSingle .input edge.implicit
    obtain ⟨_, _, _, orderOnly⟩ := fragmentsSingle .input edge.orderOnly
    unfold edgeLine
    simp only [List.mem_append, not_or]
    exact ⟨by decide, outputs, by decide, ruleSingle, inputs, implicit, orderOnly⟩

/-- The keys of a rule are those of the format, so none of them breaks its line. -/
theorem newline_notMem_name_of_mem_ruleBindings
    {rule : Rule}
    {binding : String × Value}
    (member : binding ∈ ruleBindings rule) :
    '\n' ∉ binding.1.toList := by
  simp only [ruleBindings, List.mem_append, List.mem_singleton,
    Option.mem_toList, Option.map_eq_some_iff, List.mem_ite_nil_right] at member
  rcases member with
    ((((rfl | ⟨_, _, rfl⟩) | ⟨_, _, rfl⟩) | ⟨_, rfl⟩) | ⟨_, _, rfl⟩) | ⟨_, rfl⟩ <;>
    simp

/-- A rule binds its command and one key for each option that is set. -/
theorem length_ruleBindings
    (rule : Rule) :
    (ruleBindings rule).length = 1 + setOptions rule := by
  rcases rule with
    ⟨_, _, _ | depfile, _ | deps, _ | generator, _ | pool, _ | restat⟩ <;> rfl

theorem filledLine_of_mem_versionBlocks
    {file : BuildFile}
    {block : List (List Char)}
    (member : block ∈ versionBlocks file) :
    block ≠ [] ∧ ∀ line ∈ block, FilledLine line := by
  obtain ⟨version, _, rfl⟩ := List.mem_map.mp member
  refine ⟨List.cons_ne_nil _ _, ?_⟩
  rw [List.forall_mem_singleton]
  exact filledLine_assignmentLine file.target .shell (by decide) (by decide) _

theorem filledLine_of_mem_groupBlocks
    {file : BuildFile}
    {group : VariableGroup}
    {block : List (List Char)}
    (member : block ∈ groupBlocks file group) :
    block ≠ [] ∧ ∀ line ∈ block, FilledLine line := by
  unfold groupBlocks at member
  cases assigned : file.assignmentsOf group with
  | nil =>
      simp [assigned] at member
  | cons first rest =>
      rw [assigned] at member
      obtain rfl := List.mem_singleton.mp member
      refine ⟨List.cons_ne_nil _ _, ?_⟩
      rw [List.forall_mem_map]
      intro assignment _
      exact filledLine_assignmentLine file.target (groupPosition group) (by decide)
        assignment.target.newline_notMem_name assignment.value

theorem filledLine_of_mem_ruleBlock
    (target : Target)
    {rule : Rule}
    (nameSingle : '\n' ∉ rule.name.toList) :
    ∀ line ∈ ruleBlock target rule, FilledLine line := by
  rw [ruleBlock, List.forall_mem_cons, List.forall_mem_map]
  constructor
  · exact ⟨by simp, by simp [nameSingle]⟩
  · intro binding member
    have keySingle := newline_notMem_name_of_mem_ruleBindings member
    exact filledLine_bindingLine target keySingle

theorem filledLine_of_mem_edgeBlock
    (target : Target)
    {edge : Edge}
    (ruleSingle : '\n' ∉ edge.rule.toList) :
    ∀ line ∈ edgeBlock target edge, FilledLine line := by
  rw [edgeBlock, List.forall_mem_cons, List.forall_mem_map]
  constructor
  · exact filledLine_edgeLine target ruleSingle
  · intro entry _
    exact filledLine_bindingLine target entry.1.newline_notMem_name

/-- Names of rules were checked when the rules were declared. -/
theorem newline_notMem_ruleName
    {file : BuildFile}
    (consistent : file.Consistent)
    {name : String}
    (declared : name ∈ file.ruleNames) :
    '\n' ∉ name.toList :=
  notMem_of_nameCharacters (by decide) (consistent.graph.ruleNames name declared).2.1

/-- Each block of a consistent file says something on each of its lines. -/
theorem filledLine_of_mem_blocksOf
    {file : BuildFile}
    (consistent : file.Consistent)
    {block : List (List Char)}
    (member : block ∈ blocksOf file) :
    block ≠ [] ∧ ∀ line ∈ block, FilledLine line := by
  simp only [blocksOf, List.mem_append, List.mem_flatMap, List.mem_map] at member
  rcases member with inVersion | ⟨group, _, inGroup⟩ | ⟨rule, declared, rfl⟩ |
    ⟨edge, declared, rfl⟩
  · exact filledLine_of_mem_versionBlocks inVersion
  · exact filledLine_of_mem_groupBlocks inGroup
  · have nameSingle := newline_notMem_ruleName consistent (List.mem_map_of_mem declared)
    exact ⟨List.cons_ne_nil _ _, filledLine_of_mem_ruleBlock file.target nameSingle⟩
  · have ruleSingle : '\n' ∉ edge.rule.toList := by
      rcases (consistent.graph.edgesComplete edge declared).2 with isPhony | known
      · rw [isPhony]
        decide
      · exact newline_notMem_ruleName consistent known
    exact ⟨List.cons_ne_nil _ _, filledLine_of_mem_edgeBlock file.target ruleSingle⟩

theorem filledLine_of_mem_closingLines
    {file : BuildFile}
    {line : List Char}
    (member : line ∈ closingLines file) :
    FilledLine line := by
  unfold closingLines at member
  cases declared : file.defaults with
  | nil =>
      simp [declared] at member
  | cons first rest =>
      rw [declared] at member
      obtain rfl := List.mem_singleton.mp member
      have targetsSingle :
          '\n' ∉ (writeEach file.target .input [] (first :: rest)).text :=
        onOneLine_writeEach file.target .input List.not_mem_nil _
      exact ⟨by simp, by simp [targetsSingle]⟩

/-! ## Empty lines -/

/-- Of two lines that follow each other one says something. -/
def NotBothEmpty (first second : List Char) : Prop :=
  first ≠ [] ∨ second ≠ []

/-- Lines that say something may stand in front of any others. -/
theorem isChain_append_of_ne_nil
    {block lines : List (List Char)}
    (notEmpty : ∀ line ∈ block, line ≠ [])
    (chain : lines.IsChain NotBothEmpty) :
    (block ++ lines).IsChain NotBothEmpty := by
  induction block with
  | nil =>
      exact chain
  | cons line rest inductionHypothesis =>
      rw [List.forall_mem_cons] at notEmpty
      rw [List.cons_append, List.isChain_cons]
      exact ⟨fun _ _ => .inl notEmpty.1, inductionHypothesis notEmpty.2⟩

/-- What is laid out begins with a line that says something. -/
theorem ne_nil_of_mem_head?_layout
    {blocks : List (List (List Char))}
    {closing : List (List Char)}
    (filled : ∀ block ∈ blocks, block ≠ [] ∧ ∀ line ∈ block, line ≠ [])
    (closingFilled : ∀ line ∈ closing, line ≠ []) :
    ∀ line ∈ (layout blocks closing).head?, line ≠ [] := by
  intro line isFirst
  cases blocks with
  | nil =>
      exact closingFilled line (List.mem_of_mem_head? isFirst)
  | cons block rest =>
      obtain ⟨notEmpty, each⟩ := filled block List.mem_cons_self
      obtain ⟨first, others, rfl⟩ := List.exists_cons_of_ne_nil notEmpty
      obtain rfl : first = line := by simpa [layout] using isFirst
      exact each first List.mem_cons_self

/-- Empty lines behind blocks never follow each other. -/
theorem isChain_layout
    {blocks : List (List (List Char))}
    {closing : List (List Char)}
    (filled : ∀ block ∈ blocks, block ≠ [] ∧ ∀ line ∈ block, line ≠ [])
    (closingFilled : ∀ line ∈ closing, line ≠ []) :
    (layout blocks closing).IsChain NotBothEmpty := by
  induction blocks with
  | nil =>
      have chain := isChain_append_of_ne_nil closingFilled .nil
      rwa [List.append_nil] at chain
  | cons block rest inductionHypothesis =>
      rw [List.forall_mem_cons] at filled
      obtain ⟨⟨_, blockFilled⟩, restFilled⟩ := filled
      have nextFilled := ne_nil_of_mem_head?_layout restFilled closingFilled
      have behind : ([] :: layout rest closing).IsChain NotBothEmpty := by
        rw [List.isChain_cons]
        exact ⟨fun line isFirst => .inr (nextFilled line isFirst),
          inductionHypothesis restFilled⟩
      have chain := isChain_append_of_ne_nil blockFilled behind
      simpa [layout] using chain

/-! ## The text of a file -/

theorem generate_of_ended
    {file : BuildFile}
    (ended : (writeFile file).outcome = .ok ()) :
    generate file = .ok (String.ofList (writeFile file).text) := by
  rw [generate, Output.toText, ended]
  rfl

/-- A generated text is the header and a body of blocks. -/
theorem toList_eq_of_generate
    {file : BuildFile}
    {text : String}
    (generated : generate file = .ok text) :
    text.toList =
      (header file.source).toList ++
        Text.unlines (layout (blocksOf file) (closingLines file)) := by
  have body := completes_writeBody file
  have split :
      writeFile file =
        { text := (header file.source).toList ++ (writeBody file).text
          outcome := (writeBody file).outcome } :=
    rfl
  rw [generate, Output.toText, split] at generated
  cases ended : (writeBody file).outcome with
  | error error =>
      rw [ended] at generated
      cases generated
  | ok value =>
      rw [ended] at generated
      obtain rfl := Except.ok.inj generated
      simp [body ended]

/-- The lines of a body are the lines that are laid out, whatever is written on them. -/
theorem linesOf_layout
    {file : BuildFile}
    (consistent : file.Consistent) :
    Text.linesOf (Text.unlines (layout (blocksOf file) (closingLines file))) =
      layout (blocksOf file) (closingLines file) := by
  apply Text.linesOf_unlines
  simp only [layout, List.forall_mem_append, List.mem_flatMap]
  constructor
  · rintro line ⟨block, member, inBlock⟩
    rcases List.mem_append.mp inBlock with filled | isEmpty
    · exact ((filledLine_of_mem_blocksOf consistent member).2 line filled).single
    · obtain rfl := List.mem_singleton.mp isEmpty
      exact List.not_mem_nil
  · intro line member
    exact (filledLine_of_mem_closingLines member).single

theorem length_groupBlocks
    (file : BuildFile)
    (groups : List VariableGroup) :
    (groups.flatMap (groupBlocks file)).map List.length =
      (groups.map fun group => (file.assignmentsOf group).length).filter (· ≠ 0) := by
  induction groups with
  | nil =>
      rfl
  | cons group rest inductionHypothesis =>
      rw [List.flatMap_cons, List.map_append, inductionHypothesis, List.map_cons,
        groupBlocks]
      cases file.assignmentsOf group with
      | nil =>
          simp
      | cons first others =>
          simp

theorem length_ruleBlock
    (target : Target)
    (rule : Rule) :
    (ruleBlock target rule).length = 2 + setOptions rule := by
  rw [ruleBlock, List.length_cons, List.length_map, length_ruleBindings]
  omega

theorem length_edgeBlock
    (target : Target)
    (edge : Edge) :
    (edgeBlock target edge).length = 1 + edge.overrides.entries.length := by
  rw [edgeBlock, List.length_cons, List.length_map, Nat.add_comm]

/--
The text of a reachable file is its header and a body of blocks: the required version, the
groups that are not empty with a line for each variable, the rules with two lines and one
for each option that is set, and the edges with one line and one for each override.  Each
block is followed by an empty line and holds none itself.  A line of default targets closes
the body just when there are any.
-/
theorem generate_eq_blocks
    {file : BuildFile}
    (reachable : file.Reachable)
    {text : String}
    (generated : generate file = .ok text) :
    ∃ body,
      text.toList = (header file.source).toList ++ body ∧
      body =
        Text.unlines
          (((blocksOf file).flatMap fun block => block ++ [[]]) ++ closingLines file) ∧
      Text.linesOf body =
        ((blocksOf file).flatMap fun block => block ++ [[]]) ++ closingLines file ∧
      (blocksOf file).map List.length =
        (file.requiredVersion.toList.map fun _ => 1) ++
          (((VariableGroup.all.map fun group =>
                (file.assignmentsOf group).length).filter (· ≠ 0)) ++
            ((file.rules.map fun rule => 2 + setOptions rule) ++
              file.edges.map fun edge => 1 + edge.overrides.entries.length)) ∧
      (closingLines file).length = (if file.defaults = [] then 0 else 1) ∧
      (∀ line ∈ (blocksOf file).flatten ++ closingLines file, line ≠ []) ∧
      ¬ [[], []] <:+: Text.linesOf body := by
  have consistent := reachable.consistent
  have filled :
      ∀ block ∈ blocksOf file, block ≠ [] ∧ ∀ line ∈ block, line ≠ [] := by
    intro block member
    obtain ⟨notEmpty, each⟩ := filledLine_of_mem_blocksOf consistent member
    exact ⟨notEmpty, fun line inBlock => (each line inBlock).notEmpty⟩
  have closingFilled : ∀ line ∈ closingLines file, line ≠ [] :=
    fun line member => (filledLine_of_mem_closingLines member).notEmpty
  have lines := linesOf_layout consistent
  refine ⟨_, toList_eq_of_generate generated, rfl, lines, ?_, ?_, ?_, ?_⟩
  · simp only [blocksOf, List.map_append, length_groupBlocks]
    simp only [versionBlocks, List.map_map, Function.comp_def, List.length_singleton,
      length_ruleBlock, length_edgeBlock]
  · unfold closingLines
    cases file.defaults with
    | nil =>
        rfl
    | cons first rest =>
        rfl
  · rw [List.forall_mem_append]
    refine ⟨?_, closingFilled⟩
    intro line member
    obtain ⟨block, inBlocks, inBlock⟩ := List.mem_flatten.mp member
    exact (filled block inBlocks).2 line inBlock
  · rw [lines]
    intro twice
    obtain ⟨before, behind, shape⟩ := twice
    have chain := isChain_layout filled closingFilled
    rw [← shape] at chain
    rcases List.isChain_pair.mp chain.left_of_append.right_of_append with notEmpty | notEmpty
    · exact notEmpty rfl
    · exact notEmpty rfl

/--
Line breaks in a variable and in a rule's name are refused, and one in the source stays in
the header, so what looks like statements in values stays on the lines of these.
-/
theorem generate_eq_blocks_lookalikes :
    let compiler := Argument.tool "cc" (.text (.plain "gcc"))
    let compile :=
      Commands.single
        (.nested (.single (.arguments [compiler, .text (.plain "build all:")])))
    let file :=
      BuildFile.run
        [.declareVariable (.ofString "in dir") (.text (.plain "rule $x")) .path false,
          .declareVariable (.ofString "flags") (.text (.plain "-O2\nrule x")) .flags false,
          .declareRule "compile" compile
            { depfile := some (.plain "a.d"), pool := some "console", restat := true },
          .declareRule "copy\n" compile {},
          .declareEdge
            { outputs := [.plain "a b"]
              rule := "compile"
              orderOnly := [.plain "default c"]
              overrides := Table.empty.insert (.ofString "opt") (.text (.plain "-O2")) },
          .addDefaults [.plain "a b", .plain "|"]]
        (.empty "first\nsecond" (.forPlatform .linux))
    ∃ text body,
      generate file = .ok text ∧
        text.toList = (header "first\nsecond").toList ++ body ∧
        Text.linesOf body =
          ["ninja_required_version = 1.5", "",
            "in_dir = rule $$x", "",
            "cc = gcc", "",
            "rule compile", "  command = $\x7bcc\x7d 'build all:'", "  depfile = a.d",
            "  pool = console", "  restat = 1", "",
            "build a$ b: compile || default$ c", "  opt = -O2", "",
            "default a$ b |"].map String.toList := by
  intro compiler compile file
  have reachable : file.Reachable := ⟨_, _, _, rfl⟩
  have ended : (writeFile file).outcome = .ok () := by
    decide +kernel
  have generated := generate_of_ended ended
  obtain ⟨body, textShape, _, lines, _⟩ := generate_eq_blocks reachable generated
  have source : file.source = "first\nsecond" := by
    decide +kernel
  rw [source] at textShape
  refine ⟨_, body, generated, textShape, lines.trans ?_⟩
  decide +kernel

end Ninja

end BuildGraph
