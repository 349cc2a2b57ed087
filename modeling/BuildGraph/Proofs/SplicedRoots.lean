import BuildGraph.Proofs.CollapsedCommands
import BuildGraph.Proofs.CommandWords
import BuildGraph.Proofs.UnescapedQuotes

namespace BuildGraph.Ninja

/-!
# Roots that are spliced into commands

The value of a root is written without quotes, and the paths below it are written between
quotes as a reference and a suffix.  So the value reaches the shell between quotes that were
put there before it was known.  This is stated for what the backend reads of the generated
text: the value behind the name of the root, and the command behind its name in the block of
a rule.
-/

/-! ## The line that assigns a variable -/

/-- The text that a body assigns to a name: that of the first line that begins with it. -/
def assignedText? (name : String) (body : List Char) : Option (List Char) :=
  (Text.linesOf body).findSome? (behind? (name.toList ++ " = ".toList))

/-- What is found in one item and, wherever something is found, nothing else, is found. -/
theorem findSome?_eq_some_of_alone
    {find : Item → Option Result}
    {items : List Item}
    {item : Item}
    {value : Result}
    (member : item ∈ items)
    (found : find item = some value)
    (alone : ∀ other ∈ items, ∀ result, find other = some result → result = value) :
    items.findSome? find = some value := by
  cases first : items.findSome? find with
  | none =>
      rw [List.findSome?_eq_none_iff.mp first item member] at found
      contradiction
  | some result =>
      obtain ⟨other, inItems, foundOther⟩ := List.exists_of_findSome?_eq_some first
      rw [alone other inItems result foundOther]

/-- The block of a group holds its assignments, if it has any. -/
theorem mem_groupBlocks_iff
    {file : BuildFile}
    {group : VariableGroup}
    {block : List (List Char)} :
    block ∈ groupBlocks file group ↔
      ∃ assignments,
        file.assignmentsOf group = assignments ∧ assignments ≠ [] ∧
          block =
            assignments.map fun assignment =>
              assignmentLine file.target (groupPosition group) ""
                assignment.target.name assignment.value := by
  unfold groupBlocks
  cases file.assignmentsOf group <;> simp

/-- First words of the lines that assign no declared variable. -/
def formWords : List String :=
  ["", "rule", "build", "default", "ninja_required_version"]

/-- A line that begins with a word of the form, or with an indentation. -/
def BeginsWithForm (line : List Char) : Prop :=
  ∃ word ∈ formWords, ∃ rest, line = word.toList ++ ' ' :: rest

theorem beginsWithForm_bindingLine
    (target : Target)
    (binding : String × Value) :
    BeginsWithForm (bindingLine target binding) :=
  ⟨"", by decide, _, rfl⟩

/-- The lines of a file are empty, assign a declared variable, or begin with the form. -/
theorem line_cases
    {file : BuildFile}
    {line : List Char}
    (member : line ∈ layout (blocksOf file) (closingLines file)) :
    line = [] ∨
      (∃ assignment ∈ file.assignments,
        line =
          assignmentLine file.target (groupPosition assignment.group) ""
            assignment.target.name assignment.value) ∨
      BeginsWithForm line := by
  rcases List.mem_append.mp member with inBlocks | inClosing
  · obtain ⟨block, inFile, inBlock⟩ := List.mem_flatMap.mp inBlocks
    rcases List.mem_append.mp inBlock with inBlock | isBlank
    · simp only [blocksOf, List.mem_append, List.mem_flatMap, List.mem_map] at inFile
      rcases inFile with inVersion | ⟨group, _, inGroup⟩ | ⟨rule, _, rfl⟩ |
        ⟨edge, _, rfl⟩
      · obtain ⟨version, _, rfl⟩ := List.mem_map.mp inVersion
        obtain rfl := List.mem_singleton.mp inBlock
        exact .inr (.inr ⟨"ninja_required_version", by decide, _, rfl⟩)
      · obtain ⟨assignments, assigned, _, rfl⟩ := mem_groupBlocks_iff.mp inGroup
        obtain ⟨assignment, inAssignments, rfl⟩ := List.mem_map.mp inBlock
        rw [← assigned] at inAssignments
        obtain ⟨declared, isGroup⟩ := List.mem_filter.mp inAssignments
        obtain rfl : assignment.group = group := by simpa using isGroup
        exact .inr (.inl ⟨assignment, declared, rfl⟩)
      · rcases List.mem_cons.mp inBlock with rfl | isBinding
        · exact .inr (.inr ⟨"rule", by decide, _, rfl⟩)
        · obtain ⟨binding, _, rfl⟩ := List.mem_map.mp isBinding
          exact .inr (.inr (beginsWithForm_bindingLine file.target binding))
      · rcases List.mem_cons.mp inBlock with rfl | isBinding
        · exact .inr (.inr ⟨"build", by decide, _, rfl⟩)
        · obtain ⟨entry, _, rfl⟩ := List.mem_map.mp isBinding
          exact .inr (.inr (beginsWithForm_bindingLine file.target _))
    · exact .inl (List.mem_singleton.mp isBlank)
  · unfold closingLines at inClosing
    split at inClosing
    · contradiction
    · obtain rfl := List.mem_singleton.mp inClosing
      exact .inr (.inr ⟨"default", by decide, _, rfl⟩)

theorem assignmentLine_mem_layout
    {file : BuildFile}
    {assignment : Assignment}
    (declared : assignment ∈ file.assignments) :
    assignmentLine file.target (groupPosition assignment.group) ""
        assignment.target.name assignment.value ∈
      layout (blocksOf file) (closingLines file) := by
  have inGroup : assignment ∈ file.assignmentsOf assignment.group :=
    List.mem_filter.mpr ⟨declared, by simp⟩
  have everyGroup : assignment.group ∈ VariableGroup.all := by
    cases assignment.group <;> decide
  have inFile :
      ∀ block ∈ groupBlocks file assignment.group, block ∈ blocksOf file := by
    intro block member
    simp only [blocksOf, List.mem_append, List.mem_flatMap]
    exact .inr (.inl ⟨assignment.group, everyGroup, member⟩)
  have block :=
    inFile _ (mem_groupBlocks_iff.mpr ⟨_, rfl, List.ne_nil_of_mem inGroup, rfl⟩)
  apply List.mem_append_left
  rw [List.mem_flatMap]
  exact ⟨_, block, List.mem_append_left _ (List.mem_map_of_mem inGroup)⟩

/-- Behind its name a line of an assignment has the value. -/
theorem behind?_assignmentLine
    (target : Target)
    (position : Position)
    (name : String)
    (value : Value) :
    behind? (name.toList ++ " = ".toList) (assignmentLine target position "" name value) =
      some (writeValue target position value).text := by
  have shape :
      assignmentLine target position "" name value =
        (name.toList ++ " = ".toList) ++ (writeValue target position value).text := by
    simp [assignmentLine]
  rw [behind?, shape, if_pos (List.prefix_append _ _), List.drop_left]

/-- What a declared variable is assigned is read behind its name. -/
theorem assignedText?_layout
    {file : BuildFile}
    (consistent : file.Consistent)
    {assignment : Assignment}
    (declared : assignment ∈ file.assignments)
    (notForm : assignment.target.name ∉ formWords) :
    assignedText? assignment.target.name
        (Text.unlines (layout (blocksOf file) (closingLines file))) =
      some
        (writeValue file.target (groupPosition assignment.group) assignment.value).text := by
  have spaceless (var : Variable) : ' ' ∉ var.name.toList :=
    notMem_of_nameCharacters (by decide) var.normalised
  have formSpaceless : ∀ word ∈ formWords, ' ' ∉ word.toList := by
    decide
  have found (position : Position) :=
    behind?_assignmentLine file.target position assignment.target.name assignment.value
  rw [assignedText?, linesOf_layout consistent]
  refine findSome?_eq_some_of_alone (assignmentLine_mem_layout declared) (found _) ?_
  intro line member value read
  rcases line_cases member with rfl | ⟨other, otherDeclared, rfl⟩ |
    ⟨word, isForm, rest, rfl⟩
  · simp [behind?] at read
  · have sameName : other.target.name = assignment.target.name :=
      eq_of_behind? [] (spaceless assignment.target) (spaceless other.target) read
    obtain rfl : other = assignment :=
      List.inj_on_of_nodup_map consistent.vars.distinct otherDeclared declared
        (Variable.eq_of_name sameName)
    exact Option.some.inj (read.symm.trans (found _))
  · have sameWord : word = assignment.target.name :=
      eq_of_behind? [] (spaceless assignment.target) (formSpaceless word isForm)
        read
    exact absurd (sameWord ▸ isForm) notForm

/-! ## The arguments around a path -/

/-- Separated items of two lists stand on both sides of a separator. -/
theorem Output.separated_append_separated
    (separator : List Char)
    (write : Item → Output Unit)
    {first second : List Item}
    (firstNotEmpty : first ≠ [])
    (secondNotEmpty : second ≠ []) :
    separated separator write (first ++ second) =
      (separated separator write first).andThen fun _ =>
        (Output.write separator).andThen fun _ => separated separator write second := by
  rw [separated_append separator write firstNotEmpty,
    forEach_separator separator write secondNotEmpty]

section Around

variable
  {target : Target}
  {values : String → List Char}
  {arguments : List Argument}
  {words : List (List Char)}
  (conveys : ConveysWords values (writeArguments target .shell [] arguments) words)

include conveys

/-- No arguments are read as no words. -/
theorem ConveysWords.eq_nil
    (none : arguments = []) :
    words = [] := by
  subst none
  obtain ⟨text, expanded, shape, expands, reads⟩ := conveys
  obtain rfl : [] = text := congrArg Output.text shape
  obtain rfl : [] = expanded := Option.some.inj expands
  exact Option.some.inj reads.split_eq.symm

/-- Arguments in front of others are read in front of whatever the others are read as. -/
theorem ConveysWords.inFront :
    ∃ lead expanded,
      (∀ others,
        others ≠ [] →
        writeArguments target .shell [] (arguments ++ others) =
          (Output.write lead).andThen fun _ => writeArguments target .shell [] others) ∧
      expand values lead = some expanded ∧
      ∀ rest,
        Shell.scan .betweenWords (expanded ++ rest) =
          (Shell.scan .betweenWords rest).map (words ++ ·) := by
  by_cases none : arguments = []
  · refine ⟨[], [], ?_, rfl, ?_⟩
    · intro others _
      rw [none]
      rfl
    · intro rest
      rw [conveys.eq_nil none]
      simp
  · obtain ⟨text, expanded, written, expands, reads⟩ := conveys
    have expandsSpace : expand values [' '] = some [' '] :=
      expand_of_dollarless (by decide) values
    refine ⟨text ++ [' '], expanded ++ [' '], ?_, expand_append expands expandsSpace, ?_⟩
    · intro others notEmpty
      rw [writeArguments_eq_separated] at written ⊢
      rw [Output.separated_append_separated _ _ none notEmpty, written,
        writeArguments_eq_separated]
      simp [Output.andThen, Output.write]
    · intro rest
      rw [List.append_assoc, List.singleton_append, reads _ (by simp [Shell.EndsHere]),
        Shell.scan_space]

/-- Arguments behind another one end its word and are read behind it. -/
theorem ConveysWords.behind
    (argument : Argument) :
    ∃ trail expanded,
      writeArguments target .shell [] (argument :: arguments) =
          ((writeArgument target .shell argument).andThen fun _ => Output.write trail) ∧
        expand values trail = some expanded ∧
        Shell.EndsHere expanded ∧
        Shell.scan .betweenWords expanded = some words := by
  have alone :
      writeArguments target .shell [] [argument] = writeArgument target .shell argument := by
    rw [writeArguments_eq_separated, Output.separated_singleton]
  by_cases none : arguments = []
  · refine ⟨[], [], ?_, rfl, by simp [Shell.EndsHere], ?_⟩
    · rw [none, alone]
      exact (Output.andThen_result _).symm
    · rw [conveys.eq_nil none]
      rfl
  · obtain ⟨text, expanded, written, expands, reads⟩ := conveys
    have expandsSpace : expand values [' '] = some [' '] :=
      expand_of_dollarless (by decide) values
    refine ⟨' ' :: text, ' ' :: expanded, ?_, expand_append expandsSpace expands,
      by simp [Shell.EndsHere], ?_⟩
    · have separated :=
        Output.separated_append_separated [' '] (writeArgument target .shell)
          (List.cons_ne_nil argument []) none
      rw [List.singleton_append, Output.separated_singleton,
        ← writeArguments_eq_separated, ← writeArguments_eq_separated, written] at separated
      rw [separated]
      rfl
    · rw [Shell.scan_space]
      exact reads.split_eq

end Around

/-! ## Paths below the source tree -/

/-- A suffix behind a root: behind a slash, unless it is empty or brings its own. -/
def suffixBehindRoot (suffix : String) : List Char :=
  if suffix = "" ∨ suffix.toList.head? = some '/' then suffix.toList
  else '/' :: suffix.toList

theorem flatMap_suffixAfterHead
    (suffix : String) :
    (Path.suffixAfterHead suffix).flatMap String.toList = suffixBehindRoot suffix := by
  unfold Path.suffixAfterHead suffixBehindRoot
  by_cases isEmpty : suffix = ""
  · simp [isEmpty]
  · by_cases rooted : suffix.toList.head? = some '/'
    · simp [isEmpty, rooted]
    · simp [isEmpty, rooted]

/-- A first slash stays in front when a text is escaped. -/
theorem head?_escape
    {text : List Char}
    (rooted : text.head? = some '/') :
    (Shell.escape text).1.head? = some '/' := by
  obtain ⟨rest, rfl⟩ := List.head?_eq_some_iff.mp rooted
  rw [Shell.escape_eq]
  rfl

/-- Behind a root nothing follows, or a slash does. -/
theorem escapedSuffix_cases
    (suffix : String) :
    (escapedSuffix suffix = [] ∧ suffixBehindRoot suffix = []) ∨
      ((escapedSuffix suffix).head? = some '/' ∧
        (suffixBehindRoot suffix).head? = some '/') := by
  unfold escapedSuffix Path.suffixAfterHead suffixBehindRoot
  by_cases isEmpty : suffix = ""
  · left
    simp [isEmpty]
  · right
    by_cases rooted : suffix.toList.head? = some '/'
    · simp [isEmpty, rooted, head?_escape rooted]
    · have slash : (Shell.escape ['/']).1 = ['/'] := by
        decide
      simp [isEmpty, rooted, slash]

/--
A path with variables among arguments that are read as words is read as one word between
them, the values and the suffix, just if no quote is in the values.
-/
theorem split_writeArguments_iff
    {target : Target}
    {values : String → List Char}
    {before after : List Argument}
    {wordsBefore wordsAfter : List (List Char)}
    (conveysBefore :
      ConveysWords values (writeArguments target .shell [] before) wordsBefore)
    (conveysAfter :
      ConveysWords values (writeArguments target .shell [] after) wordsAfter)
    {path : Path}
    (checked : path.check = .ok ())
    (hasHead : path.head target.pathVariables ≠ []) :
    let root := (path.head target.pathVariables).flatMap fun var => values var.name
    ∃ expanded,
      expand values
            (writeArguments target .shell []
              (before ++ .text (.path path) :: after)).text =
          some expanded ∧
        (Shell.split expanded =
            some (wordsBefore ++ (root ++ suffixBehindRoot path.suffix) :: wordsAfter) ↔
          '\'' ∉ root) := by
  intro root
  have fragmentChecked : (Fragment.path path).check = .ok () := checked
  have argument :
      writeArgument target .shell (.text (.path path)) =
        Output.write (writtenPath target .shell path).text :=
    writeArgument_text_eq_write fragmentChecked target .shell
  obtain ⟨lead, leadExpanded, written, expandsLead, readsLead⟩ := conveysBefore.inFront
  obtain ⟨trail, trailExpanded, writtenBehind, expandsTrail, ends, readsTrail⟩ :=
    conveysAfter.behind (.text (.path path))
  have text :
      (writeArguments target .shell [] (before ++ .text (.path path) :: after)).text =
        lead ++ ((writtenPath target .shell path).text ++ trail) := by
    rw [written _ (List.cons_ne_nil _ _), writtenBehind, argument]
    rfl
  have spells : Shell.SpellsQuoted (escapedSuffix path.suffix) (suffixBehindRoot path.suffix) := by
    rw [← flatMap_suffixAfterHead]
    exact spellsQuoted_escapedSuffix path.suffix
  have single :=
    Shell.scan_wrap_iff root spells (escapedSuffix_cases path.suffix) ends readsTrail
  refine
    ⟨leadExpanded ++
      (Shell.wrap (root ++ escapedSuffix path.suffix) true ++ trailExpanded), ?_, ?_⟩
  · rw [text]
    exact expand_append expandsLead
      (expand_append (expand_writtenPath values hasHead) expandsTrail)
  · rw [← single, Shell.split, readsLead, Option.map_eq_some_iff]
    constructor
    · rintro ⟨words, read, shape⟩
      rw [read, List.append_cancel_left shape]
    · exact fun read => ⟨_, read, rfl⟩

/-- What the references of a path below the source tree stand for. -/
theorem flatMap_head_sourceTree
    (platform : Platform)
    {path : Path}
    (inSourceTree : path.root = .sourceTree)
    (values : String → List Char) :
    ((path.head (.forPlatform platform)).flatMap fun var => values var.name) =
      (if path.isStaged ∧ platform.supportsStaging then values "DESTDIR" else []) ++
        values "srcdir" := by
  have names :
      (Variable.ofString "DESTDIR").name = "DESTDIR" ∧
        (Variable.ofString "srcdir").name = "srcdir" := by
    decide
  unfold Path.head
  rw [inSourceTree]
  cases path.isStaged <;> cases staging : platform.supportsStaging <;>
    simp [PathVariables.get, PathVariables.forPlatform, staging, names]

/-- The value that a root is assigned as plain text is read back as that text. -/
theorem expand_writeValue_plain
    {value : String}
    (singleLine : '\n' ∉ value.toList)
    (target : Target)
    (values : String → List Char) :
    expand values (writeValue target .clean (.text (.plain value))).text =
      some value.toList := by
  have checked : (Fragment.plain value).check = .ok () :=
    Text.checkSingleLine_eq_ok singleLine
  rw [writeValue, writeFragment_eq_write target .clean .never checked]
  exact expand_escapeText values .clean value.toList

/--
In a generated text the source tree's root is assigned just its value, and the command of a
rule is bound as it was given.  Where a path below that root stands among the arguments, it
is read as its word, value and suffix, just if the value holds no quote.  The other arguments
may be read as any words; a staging directory in front of the root shares the quotes.
-/
theorem split_sourceTree_iff
    {file : BuildFile}
    (reachable : file.Reachable)
    (conventional : file.target.pathVariables = .forPlatform file.target.platform)
    {value : String}
    (declared :
      { group := .path
        target := .ofString "srcdir"
        value := .text (.plain value) } ∈ file.assignments)
    {rule : Rule}
    (member : rule ∈ file.rules)
    {before after : List Argument}
    {path : Path}
    (direct : rule.command = .words (before ++ .text (.path path) :: after))
    (inSourceTree : path.root = .sourceTree)
    {text : String}
    (generated : generate file = .ok text) :
    ∃ body rootText block command,
      text.toList = (header file.source).toList ++ body ∧
      assignedText? "srcdir" body = some rootText ∧
      (∀ values, expand values rootText = some value.toList) ∧
      block ∈ readBlocks body ∧
      block.head? = some ("rule ".toList ++ rule.name.toList) ∧
      boundText? "command" block = some command ∧
      ∀ {values wordsBefore wordsAfter},
        values "srcdir" = value.toList →
        ConveysWords values (writeArguments file.target .shell [] before) wordsBefore →
        ConveysWords values (writeArguments file.target .shell [] after) wordsAfter →
        let isStaged := path.isStaged ∧ file.target.platform.supportsStaging
        let root := (if isStaged then values "DESTDIR" else []) ++ value.toList
        ∃ expanded,
          expand values command = some expanded ∧
          (Shell.split expanded =
              some (wordsBefore ++ (root ++ suffixBehindRoot path.suffix) :: wordsAfter) ↔
            '\'' ∉ root) := by
  have lines := reachable.onSingleLines
  have consistent := reachable.consistent
  have singleLine : '\n' ∉ value.toList :=
    Text.checkSingleLine_eq_ok_iff.mp (lines.assignments _ declared)
  have checked : path.check = .ok () := by
    have command := (lines.rules rule member).command
    rw [direct, Value.check, Argument.checkAll_eq_ok_iff] at command
    exact command (.text (.path path)) (by simp)
  have hasHead : path.head file.target.pathVariables ≠ [] := by
    simp [conventional, Path.head, inSourceTree, PathVariables.get, PathVariables.forPlatform]
  have sameName : (Variable.ofString "srcdir").name = "srcdir" := by
    decide
  have notForm : (Variable.ofString "srcdir").name ∉ formWords := by
    decide
  have assigned := assignedText?_layout consistent declared notForm
  rw [sameName] at assigned
  have inBody : ruleBlock file.target rule ∈ blocksOf file ++ [closingLines file] := by
    simp only [blocksOf, List.mem_append, List.mem_map]
    exact .inl (.inr (.inr (.inl ⟨rule, member, rfl⟩)))
  refine ⟨_, _, _, _, toList_eq_of_generate generated, assigned,
    expand_writeValue_plain singleLine file.target, readBlocks_layout consistent ▸ inBody,
    rfl, boundText?_ruleBlock file.target rule, ?_⟩
  intro values wordsBefore wordsAfter rootValue conveysBefore conveysAfter isStaged root
  have references :
      ((path.head file.target.pathVariables).flatMap fun var => values var.name) = root := by
    rw [conventional, flatMap_head_sourceTree file.target.platform inSourceTree, rootValue]
  have split := split_writeArguments_iff conveysBefore conveysAfter checked hasHead
  rw [references] at split
  rw [direct]
  exact split

/-- A root with spaces and a dollar sign in it is spliced whole into a command. -/
theorem split_sourceTree_spaces :
    let compile : List Argument :=
      [.text (.plain "cc"), .text (.path (.below .sourceTree "a b.c")), .text (.plain "it's")]
    let file :=
      BuildFile.run
        [.declareVariable (.ofString "srcdir") (.text (.plain "/home/my $src")) .path false,
          .declareRule "cc" (.single (.arguments compile)) {}]
        (.empty "build.bfg" (.forPlatform .linux))
    let values := fun name => if name = "srcdir" then "/home/my $src".toList else []
    ∃ text body rootText block command,
      generate file = .ok text ∧
        text.toList = (header file.source).toList ++ body ∧
        assignedText? "srcdir" body = some rootText ∧
        expand values rootText = some "/home/my $src".toList ∧
        block ∈ readBlocks body ∧
        boundText? "command" block = some command ∧
        (expand values command).bind Shell.split =
          some ["cc".toList, "/home/my $src/a b.c".toList, "it's".toList] := by
  intro compile file values
  have reachable : file.Reachable := ⟨_, _, _, rfl⟩
  have ended : (writeFile file).outcome = .ok () := by
    decide +kernel
  have generated := generate_of_ended ended
  have conventional :
      file.target.pathVariables = .forPlatform file.target.platform := by
    decide +kernel
  have declared :
      { group := .path
        target := .ofString "srcdir"
        value := .text (.plain "/home/my $src") } ∈ file.assignments :=
    List.mem_cons_self
  let rule : Rule :=
    { name := "cc"
      command := .words compile
      depfile := none
      deps := none
      generator := false
      pool := none
      restat := false }
  have ruleMember : rule ∈ file.rules :=
    List.mem_cons_self
  have direct :
      rule.command =
        .words
          ([.text (.plain "cc")] ++
            .text (.path (.below .sourceTree "a b.c")) :: [.text (.plain "it's")]) :=
    rfl
  have quoteless : ∀ name, '\'' ∉ values name := by
    intro name
    show '\'' ∉ if name = "srcdir" then "/home/my $src".toList else []
    split <;> decide
  have conveys (text : String) (singleLine : '\n' ∉ text.toList) :
      ConveysWords values
        (writeArguments file.target .shell [] [.text (.plain text)]) _ :=
    conveysWords_writeArguments file.target quoteless
      (List.forall_mem_singleton.mpr rfl)
      (List.forall_mem_singleton.mpr (Text.checkSingleLine_eq_ok singleLine))
  obtain ⟨body, rootText, block, command, shape, assigned, expands, inBody, _, bound, words⟩ :=
    split_sourceTree_iff reachable conventional declared ruleMember direct rfl generated
  obtain ⟨expanded, read, whole⟩ :=
    words rfl (conveys "cc" (by decide)) (conveys "it's" (by decide))
  refine ⟨_, body, rootText, block, command, generated, shape, assigned, expands values,
    inBody, bound, ?_⟩
  rw [read, Option.bind_some, whole.mpr (by decide +kernel)]
  decide +kernel

/--
A quote in the value of the root ends the quotes around the path.  The command that is read
of the file is then no list of words at all.
-/
theorem split_sourceTree_quote :
    let value := "it's"
    let compile : List Argument :=
      [.text (.plain "cc"), .text (.path (.below .sourceTree "a.c"))]
    let file :=
      BuildFile.run
        [.declareVariable (.ofString "srcdir") (.text (.plain value)) .path false,
          .declareRule "cc" (.single (.arguments compile)) {}]
        (.empty "build.bfg" (.forPlatform .linux))
    let values := fun name => if name = "srcdir" then value.toList else []
    file.Reachable ∧
      file.target.pathVariables = .forPlatform file.target.platform ∧
      ∃ text body rootText block command,
        generate file = .ok text ∧
          text.toList = (header file.source).toList ++ body ∧
          assignedText? "srcdir" body = some rootText ∧
          expand values rootText = some value.toList ∧
          block ∈ readBlocks body ∧
          boundText? "command" block = some command ∧
          (expand values command).bind Shell.split = none := by
  intro value compile file values
  have reachable : file.Reachable := ⟨_, _, _, rfl⟩
  have ended : (writeFile file).outcome = .ok () := by
    decide +kernel
  have generated := generate_of_ended ended
  let command := "cc '$\x7bsrcdir\x7d/a.c'".toList
  refine ⟨reachable, ?_, _, _, value.toList,
    ["rule cc".toList, "  command = ".toList ++ command], command, generated,
    toList_eq_of_generate generated, ?_, ?_, ?_, ?_, ?_⟩
  all_goals decide +kernel

end BuildGraph.Ninja
