import BuildGraph.Proofs.LineReader
import BuildGraph.Proofs.Lines
import BuildGraph.Proofs.Rendering

namespace BuildGraph.Ninja

/-!
# Build lines read back

What stands in the first line of an edge is escaped so that each fragment is read as the
symbols that it stands for.  A fragment that stands for nothing leaves no word, and an
input that stands for a separator is read as one; every other edge is read back whole.
-/

/-- A text on a single line is read as the given symbols, written for a position. -/
structure Writes
    (position : Position)
    (text : List Char)
    (symbols : List Symbol) :
    Prop where
  singleLine : '\n' ∉ text
  marks : readMarks text = some (symbols.map (markOf position))

namespace Writes

theorem nil
    (position : Position) :
    Writes position [] [] :=
  ⟨by simp, rfl⟩

/-- Texts one after the other are read as their symbols one after the other. -/
theorem append
    {position : Position}
    {first second : List Char}
    {firstSymbols secondSymbols : List Symbol}
    (writesFirst : Writes position first firstSymbols)
    (writesSecond : Writes position second secondSymbols) :
    Writes position (first ++ second) (firstSymbols ++ secondSymbols) := by
  constructor
  · simp [writesFirst.singleLine, writesSecond.singleLine]
  · rw [readMarks_append_of_eq writesFirst.marks writesSecond.marks,
      List.map_append]

theorem flatMap
    {position : Position}
    {text : Item → List Char}
    {symbols : Item → List Symbol}
    {items : List Item}
    (each : ∀ item ∈ items, Writes position (text item) (symbols item)) :
    Writes position (items.flatMap text) (items.flatMap symbols) := by
  induction items with
  | nil =>
      exact .nil position
  | cons item rest inductionHypothesis =>
      rw [List.forall_mem_cons] at each
      exact each.1.append (inductionHypothesis each.2)

/-- Escaped text is read as its characters. -/
theorem escapeText
    {text : List Char}
    (singleLine : '\n' ∉ text)
    (position : Position) :
    Writes position (escapeText position text) (Symbol.ofText text) :=
  ⟨newline_notMem_escapeText singleLine position, readMarks_escapeText position text⟩

theorem reference
    (position : Position)
    (var : Variable) :
    Writes position var.reference.toList [.reference var.name] :=
  ⟨var.newline_notMem_reference, readMarks_reference var⟩

/-- Text without special characters is read as it stands. -/
theorem of_noneSpecial
    {position : Position}
    {text : List Char}
    (singleLine : '\n' ∉ text)
    (noneSpecial : ∀ character ∈ text, isSpecial position character = false) :
    Writes position text (Symbol.ofText text) := by
  have escaped := escapeText singleLine position
  rwa [escapeText_of_noneSpecial noneSpecial] at escaped

end Writes

/-! ## Fragments outside of shell values -/

theorem quoteFor_of_notShell
    {position : Position}
    (notShell : position ≠ .shell)
    (quoting : Quoting)
    (text : List Char) :
    quoteFor position quoting text = (text, false) := by
  cases position <;> cases quoting <;> first | rfl | exact absurd rfl notShell

/-- A path is written as what it stands for, without quotes. -/
theorem writes_writtenPath
    {position : Position}
    (notShell : position ≠ .shell)
    (target : Target)
    {path : Path}
    (checked : path.check = .ok ()) :
    Writes position (writtenPath target position path).text
      (path.symbols target.pathVariables) := by
  have text :
      (writtenPath target position path).text =
        (path.resolve target.pathVariables).flatMap fun leaf =>
          (writtenLeaf position .escape leaf).text := by
    simp [writtenPath, writtenParts, Shell.wrap, notShell, Written.concat_text,
      List.flatMap_map]
  have plain :
      ∀ suffix : String,
        '\n' ∉ suffix.toList →
        Writes position (writtenLeaf position .escape (.plain suffix)).text
          (Symbol.ofText suffix.toList) := by
    intro suffix singleLine
    rw [writtenLeaf, quoteFor_of_notShell notShell]
    exact .escapeText singleLine position
  have singleLines := path.newline_notMem_resolve checked target.pathVariables
  rw [text]
  by_cases headless : path.head target.pathVariables = []
  · rw [Path.resolve_of_head_eq_nil headless] at singleLines ⊢
    rw [Path.symbols_of_head_eq_nil headless, List.flatMap_singleton]
    exact plain _ (singleLines _ List.mem_cons_self)
  · rw [Path.resolve_of_head_ne_nil headless] at singleLines ⊢
    rw [List.forall_mem_append, List.forall_mem_map, List.forall_mem_map]
      at singleLines
    rw [Path.symbols_of_head_ne_nil headless, List.flatMap_append,
      List.flatMap_map, List.flatMap_map, List.map_eq_flatMap]
    apply Writes.append
    · exact .flatMap fun var _ => .reference position var
    · exact .flatMap fun suffix member => plain suffix (singleLines.2 suffix member)

mutual

/-- An ordinary fragment is written as what it stands for. -/
theorem writes_writtenFragment
    {position : Position}
    (notShell : position ≠ .shell)
    (target : Target)
    (quoting : Quoting) :
    ∀ {fragment : Fragment},
      fragment.isOrdinary = true →
      fragment.check = .ok () →
      Writes position (writtenFragment target position quoting fragment).text
        (fragment.symbols target.pathVariables)
  | .leaf (.plain text), _, checked => by
      rw [writtenFragment, writtenLeaf, quoteFor_of_notShell notShell]
      exact .escapeText (Text.checkSingleLine_eq_ok_iff.mp checked) position
  | .path path, _, checked => by
      rw [Fragment.check] at checked
      rw [writtenFragment, Fragment.symbols]
      exact writes_writtenPath notShell target checked
  | .concat parts, ordinary, checked => by
      rw [Fragment.isOrdinary] at ordinary
      rw [Fragment.check] at checked
      rw [writtenFragment, Fragment.symbols]
      exact writes_writtenFragments notShell target quoting ordinary checked

/-- Ordinary fragments are written as what they stand for, one after the other. -/
theorem writes_writtenFragments
    {position : Position}
    (notShell : position ≠ .shell)
    (target : Target)
    (quoting : Quoting) :
    ∀ {fragments : List Fragment},
      Fragment.areOrdinary fragments = true →
      Fragment.checkAll fragments = .ok () →
      Writes position (writtenFragments target position quoting fragments).text
        (Fragment.symbolsOf target.pathVariables fragments)
  | [], _, _ => .nil position
  | fragment :: rest, ordinary, checked => by
      rw [Fragment.areOrdinary, Bool.and_eq_true] at ordinary
      rw [Fragment.checkAll_eq_ok_iff, List.forall_mem_cons,
        ← Fragment.checkAll_eq_ok_iff] at checked
      rw [writtenFragments, Fragment.symbolsOf]
      have first :=
        writes_writtenFragment notShell target quoting ordinary.1 checked.1
      exact first.append
        (writes_writtenFragments notShell target quoting ordinary.2 checked.2)

end

/-! ## Lists of fragments -/

/-- A text on a single line is read as the given words, with a space in front of each. -/
structure WritesWords
    (position : Position)
    (text : List Char)
    (words : List (List Symbol)) :
    Prop where
  singleLine : '\n' ∉ text
  marks : readMarks text = some (spaced (words.map (·.map (markOf position))))

namespace WritesWords

theorem nil
    (position : Position) :
    WritesWords position [] [] :=
  ⟨by simp, rfl⟩

theorem append
    {position : Position}
    {first second : List Char}
    {firstWords secondWords : List (List Symbol)}
    (writesFirst : WritesWords position first firstWords)
    (writesSecond : WritesWords position second secondWords) :
    WritesWords position (first ++ second) (firstWords ++ secondWords) := by
  constructor
  · simp [writesFirst.singleLine, writesSecond.singleLine]
  · rw [readMarks_append_of_eq writesFirst.marks writesSecond.marks,
      List.map_append, spaced, spaced, spaced, List.flatMap_append]

theorem of_writes
    {position : Position}
    {text : List Char}
    {symbols : List Symbol}
    (writes : Writes position text symbols) :
    WritesWords position (' ' :: text) [symbols] := by
  constructor
  · simp [writes.singleLine]
  · have space : readMarks [' '] = some [.bare ' '] := rfl
    have behindSpace := readMarks_append_of_eq space writes.marks
    simpa [spaced] using behindSpace

theorem flatMap
    {position : Position}
    {text : Item → List Char}
    {symbols : Item → List Symbol}
    {items : List Item}
    (each : ∀ item ∈ items, Writes position (text item) (symbols item)) :
    WritesWords position (items.flatMap fun item => ' ' :: text item)
      (items.map symbols) := by
  induction items with
  | nil =>
      exact .nil position
  | cons item rest inductionHypothesis =>
      rw [List.forall_mem_cons] at each
      exact (of_writes each.1).append (inductionHypothesis each.2)

end WritesWords

/-- A list of fragments is written behind its lead as a list of words. -/
theorem writeEach_eq_write
    {position : Position}
    (notShell : position ≠ .shell)
    (target : Target)
    {fragments : List Fragment}
    (notEmpty : fragments ≠ [])
    (ordinary : ∀ fragment ∈ fragments, fragment.isOrdinary = true)
    (checked : ∀ fragment ∈ fragments, fragment.check = .ok ()) :
    ∃ text,
      (∀ lead,
          writeEach target position lead fragments = Output.write (lead ++ text)) ∧
        WritesWords position (' ' :: text)
          (fragments.map (Fragment.symbols target.pathVariables)) := by
  let written := fun fragment =>
    (writtenFragment target position .quote fragment).text
  have writesEach :
      ∀ fragment ∈ fragments,
        ((writeFragment target position .quote fragment).andThen fun _ =>
            Output.result ()) =
          Output.write (written fragment) := by
    intro fragment member
    exact writeFragment_eq_write target position .quote (checked fragment member)
  have words :
      WritesWords position (fragments.flatMap fun fragment => ' ' :: written fragment)
        (fragments.map (Fragment.symbols target.pathVariables)) :=
    .flatMap fun fragment member =>
      writes_writtenFragment notShell target .quote (ordinary fragment member)
        (checked fragment member)
  obtain ⟨first, rest, rfl⟩ := List.exists_cons_of_ne_nil notEmpty
  refine ⟨written first ++ rest.flatMap fun fragment => ' ' :: written fragment, ?_, ?_⟩
  · intro lead
    simp only [writeEach, Output.bind_eq_andThen, Output.pure_eq_result]
    rw [Output.separated_cons_eq_write writesEach]
    rfl
  · exact words

/-- Inputs behind a space are written as words, and none are written as nothing. -/
theorem writeEach_behindSpace
    (target : Target)
    {fragments : List Fragment}
    (ordinary : ∀ fragment ∈ fragments, fragment.isOrdinary = true)
    (checked : ∀ fragment ∈ fragments, fragment.check = .ok ()) :
    ∃ text,
      writeEach target .input [' '] fragments = Output.write text ∧
        WritesWords .input text
          (fragments.map (Fragment.symbols target.pathVariables)) := by
  by_cases empty : fragments = []
  · rw [empty]
    exact ⟨[], rfl, .nil .input⟩
  · have notShell : Position.input ≠ .shell := by
      decide
    obtain ⟨text, written, words⟩ :=
      writeEach_eq_write notShell target empty ordinary checked
    exact ⟨' ' :: text, written [' '], words⟩

/-- Inputs behind a separator are written as words, and none are written as nothing. -/
theorem writeEach_behindSeparator
    (target : Target)
    {separator : List Char}
    (writesSeparator : Writes .input separator (Symbol.ofText separator))
    {fragments : List Fragment}
    (ordinary : ∀ fragment ∈ fragments, fragment.isOrdinary = true)
    (checked : ∀ fragment ∈ fragments, fragment.check = .ok ()) :
    ∃ text,
      writeEach target .input (' ' :: separator ++ [' ']) fragments =
          Output.write text ∧
        WritesWords .input text
          (behindSeparator (Symbol.ofText separator)
            (fragments.map (Fragment.symbols target.pathVariables))) := by
  by_cases empty : fragments = []
  · rw [empty]
    exact ⟨[], rfl, .nil .input⟩
  · have notShell : Position.input ≠ .shell := by
      decide
    obtain ⟨text, written, words⟩ :=
      writeEach_eq_write notShell target empty ordinary checked
    refine ⟨' ' :: separator ++ ' ' :: text, ?_, ?_⟩
    · rw [written, List.append_assoc, List.singleton_append]
    · have both := (WritesWords.of_writes writesSeparator).append words
      obtain ⟨first, rest, rfl⟩ := List.exists_cons_of_ne_nil empty
      exact both

/-! ## Edges -/

/-- Every fragment of an edge's first line. -/
def fragmentsOf (edge : Edge) : List Fragment :=
  edge.outputs ++ edge.inputs ++ edge.implicit ++ edge.orderOnly

/-- What the first line of an edge is meant to say. -/
def buildLineOf (pathVariables : PathVariables) (edge : Edge) : BuildLine where
  outputs := edge.outputs.map (Fragment.symbols pathVariables)
  rule := Symbol.ofText edge.rule.toList
  inputs := edge.inputs.map (Fragment.symbols pathVariables)
  implicit := edge.implicit.map (Fragment.symbols pathVariables)
  orderOnly := edge.orderOnly.map (Fragment.symbols pathVariables)

/-- How a line is marked: outputs and what follows them are written for their positions. -/
def marksOf (line : BuildLine) : LineMarks where
  outputs := line.outputs.map (·.map (markOf .output))
  rule := line.rule.map (markOf .input)
  inputs := line.inputs.map (·.map (markOf .input))
  implicit := line.implicit.map (·.map (markOf .input))
  orderOnly := line.orderOnly.map (·.map (markOf .input))

/-- The marks of a line stand for what the line says. -/
theorem meaning_marksOf
    (line : BuildLine) :
    (marksOf line).meaning = line := by
  have back :
      ∀ (position : Position) (words : List (List Symbol)),
        (words.map (·.map (markOf position))).map (·.map Mark.symbol) = words := by
    intro position words
    simp [Function.comp_def]
  rw [LineMarks.meaning, marksOf, back, back, back, back]
  simp [Function.comp_def]

/-- Behind the colon the marks are those of the words behind the colon. -/
theorem behindColon_marksOf
    (line : BuildLine) :
    (marksOf line).behindColon =
      (line.rule :: line.inputs ++
          (behindSeparator [.plain '|'] line.implicit ++
            behindSeparator [.plain '|', .plain '|'] line.orderOnly)).map
        (·.map (markOf .input)) := by
  have behind :
      ∀ (separator : List Symbol) (words : List (List Symbol)),
        behindSeparator (separator.map (markOf .input))
            (words.map (·.map (markOf .input))) =
          (behindSeparator separator words).map (·.map (markOf .input)) := by
    intro separator words
    cases words <;> rfl
  have implicit := behind [.plain '|'] line.implicit
  have orderOnly := behind [.plain '|', .plain '|'] line.orderOnly
  rw [List.map_append, List.map_append, ← implicit, ← orderOnly]
  rfl

/-- The name of an accepted edge's rule is not empty and has no special character. -/
theorem rule_of_acceptsEdge
    {file : BuildFile}
    (consistent : file.Consistent)
    {edge : Edge}
    (accepts : file.AcceptsEdge edge) :
    edge.rule.toList ≠ [] ∧ Writes .input edge.rule.toList
      (Symbol.ofText edge.rule.toList) := by
  have proper :
      edge.rule ≠ "" ∧ edge.rule.toList.all isNameCharacter = true := by
    rcases accepts.knownRule with isPhony | declared
    · rw [isPhony]
      decide
    · obtain ⟨notEmpty, nameCharacters, _⟩ :=
        consistent.graph.ruleNames edge.rule declared
      exact ⟨notEmpty, nameCharacters⟩
  obtain ⟨notEmpty, nameCharacters⟩ := proper
  have singleLine : '\n' ∉ edge.rule.toList :=
    notMem_of_nameCharacters (by decide) nameCharacters
  rw [List.all_eq_true] at nameCharacters
  refine ⟨by simpa using notEmpty, .of_noneSpecial singleLine ?_⟩
  · intro character member
    have named := nameCharacters character member
    by_contra special
    rw [Bool.not_eq_false] at special
    have dollarOrSpace : character = '$' ∨ character = ' ' := by
      simpa [isSpecial] using special
    rcases dollarOrSpace with rfl | rfl
    · revert named
      decide
    · revert named
      decide

/-- How the text of an edge's first line is read on both sides of its colon. -/
structure LineText
    (line : BuildLine)
    (outputs behindColon : List Char) :
    Prop where
  outputsSingleLine : '\n' ∉ outputs
  behindSingleLine : '\n' ∉ behindColon
  outputs :
    ∃ marks,
      readMarks outputs = some marks ∧
        .bare ' ' :: marks = spaced (marksOf line).outputs
  behindColon :
    readMarks behindColon = some (spaced (marksOf line).behindColon)

/-- The first line of an accepted edge is written as the words that it is meant to say. -/
theorem writeEdgeLine_eq_write
    {file : BuildFile}
    (consistent : file.Consistent)
    {edge : Edge}
    (accepts : file.AcceptsEdge edge)
    (ordinary : ∀ fragment ∈ fragmentsOf edge, fragment.isOrdinary = true)
    (target : Target) :
    ∃ outputs behindColon,
      writeEdgeLine target edge =
          Output.write
            ("build ".toList ++ (outputs ++ ':' :: behindColon) ++ ['\n']) ∧
        LineText (buildLineOf target.pathVariables edge) outputs behindColon := by
  rw [fragmentsOf, List.forall_mem_append, List.forall_mem_append,
    List.forall_mem_append] at ordinary
  obtain ⟨⟨⟨outputsOrdinary, inputsOrdinary⟩, implicitOrdinary⟩,
    orderOnlyOrdinary⟩ := ordinary
  have notShell : Position.output ≠ .shell := by
    decide
  have onePipe : Writes .input ['|'] (Symbol.ofText ['|']) :=
    .of_noneSpecial (by decide) (by simp [isSpecial])
  have twoPipes : Writes .input ['|', '|'] (Symbol.ofText ['|', '|']) :=
    .of_noneSpecial (by decide) (by simp [isSpecial])
  obtain ⟨outputs, outputsWritten, outputWords⟩ :=
    writeEach_eq_write notShell target accepts.hasOutputs outputsOrdinary
      accepts.outputs
  obtain ⟨inputs, inputsWritten, inputWords⟩ :=
    writeEach_behindSpace target inputsOrdinary accepts.inputs
  obtain ⟨implicit, implicitWritten, implicitWords⟩ :=
    writeEach_behindSeparator target onePipe implicitOrdinary accepts.implicit
  obtain ⟨orderOnly, orderOnlyWritten, orderOnlyWords⟩ :=
    writeEach_behindSeparator target twoPipes orderOnlyOrdinary accepts.orderOnly
  have ruleWord := WritesWords.of_writes (rule_of_acceptsEdge consistent accepts).2
  have words :=
    (ruleWord.append inputWords).append (implicitWords.append orderOnlyWords)
  refine ⟨outputs, ' ' :: edge.rule.toList ++ inputs ++ (implicit ++ orderOnly), ?_, ?_⟩
  · have implicitLead : " | ".toList = ' ' :: ['|'] ++ [' '] := rfl
    have orderOnlyLead : " || ".toList = ' ' :: ['|', '|'] ++ [' '] := rfl
    have inputsLead : " ".toList = [' '] := rfl
    rw [writeEdgeLine, inputsLead, implicitLead, orderOnlyLead, outputsWritten,
      inputsWritten, implicitWritten, orderOnlyWritten]
    simp only [writeString, Output.bind_eq_andThen, Output.write_andThen]
    simp [Output.write]
  · have outputsSingleLine := outputWords.singleLine
    rw [List.mem_cons, not_or] at outputsSingleLine
    have outputMarks := outputWords.marks
    have behindSpace :
        readMarks (' ' :: outputs) = (readMarks outputs).map (.bare ' ' :: ·) := by
      simp [readMarks, readMarksIn]
    rw [behindSpace] at outputMarks
    obtain ⟨marks, marksRead, shape⟩ := Option.map_eq_some_iff.mp outputMarks
    constructor
    · exact outputsSingleLine.2
    · exact words.singleLine
    · exact ⟨marks, marksRead, shape⟩
    · rw [words.marks, behindColon_marksOf]
      rfl

/-- A special character never stands bare among the marks of a text. -/
theorem bare_notMem_map_markOf
    {position : Position}
    {character : Char}
    (special : isSpecial position character = true)
    (symbols : List Symbol) :
    .bare character ∉ symbols.map (markOf position) := by
  intro member
  obtain ⟨symbol, _, marked⟩ := List.mem_map.mp member
  cases symbol with
  | plain other =>
      rw [markOf] at marked
      split at marked
      · simp at marked
      · obtain rfl : other = character := by simpa using marked
        contradiction
  | reference name =>
      simp [markOf] at marked

/-- The marks of a line without empty words and false separators are proper. -/
theorem proper_marksOf
    {line : BuildLine}
    (noEmptyWord : ∀ word ∈ line.words, word ≠ [])
    (noSeparator :
      ∀ word ∈ line.allInputs,
        word ≠ [.plain '|'] ∧ word ≠ [.plain '|', .plain '|']) :
    (marksOf line).Proper := by
  have whole :
      ∀ {position : Position} {symbols : List Symbol},
        isSpecial position ' ' = true →
        symbols ≠ [] →
        symbols.map (markOf position) ≠ [] ∧
          .bare ' ' ∉ symbols.map (markOf position) := by
    intro position symbols special notEmpty
    exact ⟨by simpa using notEmpty, bare_notMem_map_markOf special symbols⟩
  have shape :
      (marksOf line).allInputs = line.allInputs.map (·.map (markOf .input)) := by
    simp [LineMarks.allInputs, BuildLine.allInputs, marksOf]
  have outputsNotEmpty : ∀ word ∈ line.outputs, word ≠ [] := by
    intro word member
    exact noEmptyWord word (by simp [BuildLine.words, member])
  have ruleNotEmpty : line.rule ≠ [] :=
    noEmptyWord line.rule (by simp [BuildLine.words])
  have inputsNotEmpty : ∀ word ∈ line.allInputs, word ≠ [] := by
    intro word member
    have inWords : word ∈ line.words := by
      simp only [BuildLine.allInputs, List.mem_append] at member
      simp only [BuildLine.words, List.mem_append, List.mem_cons]
      tauto
    exact noEmptyWord word inWords
  constructor
  · intro written member
    obtain ⟨word, inOutputs, rfl⟩ := List.mem_map.mp member
    exact whole rfl (outputsNotEmpty word inOutputs)
  · exact whole rfl ruleNotEmpty
  · rw [shape, List.forall_mem_map]
    intro word member
    exact whole rfl (inputsNotEmpty word member)
  · rw [shape, List.forall_mem_map]
    intro word member
    cases begins : Part.begunBy? (word.map (markOf .input)) with
    | none =>
        rfl
    | some part =>
        have pipes := pipes_of_begunBy? begins
        simp only [List.map_map, Function.comp_def, symbol_markOf, List.map_id_fun', id_eq]
          at pipes
        obtain ⟨notOne, notTwo⟩ := noSeparator word member
        exact absurd pipes (not_or.mpr ⟨notOne, notTwo⟩)

/-- What was written of a line without empty words and false separators is read back. -/
theorem readBuildLine_of_lineText
    {line : BuildLine}
    {outputs behindColon : List Char}
    (text : LineText line outputs behindColon)
    (noEmptyWord : ∀ word ∈ line.words, word ≠ [])
    (noSeparator :
      ∀ word ∈ line.allInputs,
        word ≠ [.plain '|'] ∧ word ≠ [.plain '|', .plain '|']) :
    readBuildLine ("build ".toList ++ (outputs ++ ':' :: behindColon)) =
      some line := by
  obtain ⟨marks, marksRead, spacedOutputs⟩ := text.outputs
  have colonRead : readMarks [':'] = some [.bare ':'] := rfl
  have allRead :
      readMarks (outputs ++ ':' :: behindColon) =
        some (marks ++ .bare ':' :: spaced (marksOf line).behindColon) :=
    readMarks_append_of_eq marksRead
      (readMarks_append_of_eq colonRead text.behindColon)
  have colonless : .bare ':' ∉ marks := by
    intro member
    have inSpaced : .bare ':' ∈ spaced (marksOf line).outputs := by
      rw [← spacedOutputs]
      exact List.mem_cons_of_mem _ member
    obtain ⟨written, inOutputs, inWord⟩ := List.mem_flatMap.mp inSpaced
    obtain ⟨word, _, rfl⟩ := List.mem_map.mp inOutputs
    rcases List.mem_cons.mp inWord with isSpace | inMarks
    · revert isSpace
      decide
    · exact bare_notMem_map_markOf rfl word inMarks
  have proper := proper_marksOf noEmptyWord noSeparator
  have reads := proper.readStatement spacedOutputs colonless
  rw [meaning_marksOf] at reads
  show (readMarks (outputs ++ ':' :: behindColon)).bind readStatement = some line
  rw [allRead]
  exact reads

/-- The line that an edge is meant to say has no empty word when no fragment is empty. -/
theorem ne_nil_of_mem_words
    {pathVariables : PathVariables}
    {edge : Edge}
    (ruleNotEmpty : edge.rule.toList ≠ []) :
    (∀ word ∈ (buildLineOf pathVariables edge).words, word ≠ []) ↔
      ∀ fragment ∈ fragmentsOf edge, fragment.symbols pathVariables ≠ [] := by
  have ruleWord : Symbol.ofText edge.rule.toList ≠ [] := by
    simpa [Symbol.ofText] using ruleNotEmpty
  simp only [BuildLine.words, buildLineOf, fragmentsOf,
    List.forall_mem_append, List.forall_mem_cons, List.forall_mem_map]
  tauto

/-- The first line of an edge's text is its first line. -/
theorem takeWhile_writeEdge
    {target : Target}
    {edge : Edge}
    {line : List Char}
    (written : writeEdgeLine target edge = Output.write (line ++ ['\n']))
    (singleLine : '\n' ∉ line) :
    (writeEdge target edge).text.takeWhile (· ≠ '\n') = line := by
  rw [writeEdge, written, Output.bind_eq_andThen, Output.write_andThen,
    List.append_assoc]
  exact Text.takeWhile_append_of_notMem singleLine _

/--
The first line of an accepted edge of plain text and paths reads back as its rule and its
four lists just when no fragment stands for nothing and no input stands for a separator.
On no line does the reader yield an empty word.
-/
theorem readBuildLine_writeEdge_iff
    {file : BuildFile}
    (reachable : file.Reachable)
    {edge : Edge}
    (accepted : (file.declareEdge edge).1 = .ok ())
    (ordinary : ∀ fragment ∈ fragmentsOf edge, fragment.isOrdinary = true)
    (target : Target) :
    (∀ text line,
        readBuildLine text = some line →
        ∀ word ∈ line.words, word ≠ []) ∧
      ∃ stored,
        (file.declareEdge edge).2.edges = file.edges ++ [stored] ∧
          (writeEdge target stored).outcome = .ok () ∧
          (readBuildLine ((writeEdge target stored).text.takeWhile (· ≠ '\n')) =
              some
                { outputs := edge.outputs.map (·.symbols target.pathVariables)
                  rule := Symbol.ofText edge.rule.toList
                  inputs := edge.inputs.map (·.symbols target.pathVariables)
                  implicit := edge.implicit.map (·.symbols target.pathVariables)
                  orderOnly := edge.orderOnly.map (·.symbols target.pathVariables) } ↔
            (∀ fragment ∈ edge.outputs ++ edge.inputs ++ edge.implicit ++ edge.orderOnly,
                fragment.symbols target.pathVariables ≠ []) ∧
              ∀ fragment ∈ edge.inputs ++ edge.implicit ++ edge.orderOnly,
                fragment.symbols target.pathVariables ≠ [.plain '|'] ∧
                  fragment.symbols target.pathVariables ≠
                    [.plain '|', .plain '|']) := by
  refine ⟨fun text line read => ne_nil_of_readBuildLine read, ?_⟩
  have consistent := reachable.consistent
  rcases file.declareEdge_cases edge with ⟨error, rejected⟩ | ⟨accepts, declared⟩
  · rw [rejected] at accepted
    contradiction
  · have agrees := file.agreesBesidesVariables_interned (BuildFile.toolsOfEdge edge)
    have storable := BuildFile.storable_convertedEdge accepts
    have stops := stopsAt_writeEdge target storable.onSingleLines storable.toolless
    obtain ⟨outputs, behindColon, written, text⟩ :=
      writeEdgeLine_eq_write consistent accepts ordinary target
    have singleLine :
        '\n' ∉ "build ".toList ++ (outputs ++ ':' :: behindColon) := by
      simp [text.outputsSingleLine, text.behindSingleLine]
    -- The overrides are all that the stored edge differs in, and its first line has none.
    have sameLine :
        writeEdgeLine target (file.convertedEdge edge) = writeEdgeLine target edge :=
      rfl
    have firstLine :
        (writeEdge target (file.convertedEdge edge)).text.takeWhile (· ≠ '\n') =
          "build ".toList ++ (outputs ++ ':' :: behindColon) :=
      takeWhile_writeEdge (sameLine.trans written) singleLine
    refine ⟨file.convertedEdge edge, ?_, stops, ?_⟩
    · rw [declared, ← agrees.edges]
      rfl
    · have ruleNotEmpty := (rule_of_acceptsEdge consistent accepts).1
      have words :
          (∀ word ∈ (buildLineOf target.pathVariables edge).words, word ≠ []) ↔
            ∀ fragment ∈ fragmentsOf edge,
              fragment.symbols target.pathVariables ≠ [] :=
        ne_nil_of_mem_words ruleNotEmpty
      rw [firstLine]
      constructor
      · intro read
        refine ⟨words.mp (ne_nil_of_readBuildLine read), ?_⟩
        have noSeparator := noSeparator_of_readBuildLine read
        simpa only [BuildLine.allInputs, List.forall_mem_append, List.forall_mem_map]
          using noSeparator
      · rintro ⟨notEmpty, noSeparator⟩
        refine readBuildLine_of_lineText text (words.mpr notEmpty) ?_
        simpa only [BuildLine.allInputs, buildLineOf, List.forall_mem_append,
          List.forall_mem_map] using noSeparator

/--
Spaces, colons, dollar signs and bars in an edge are all read back, and so is a reference
in front of an escaped suffix.
-/
theorem readBuildLine_writeEdge_special :
    let edge : Edge :=
      { outputs := [.concat [.path (.below .sourceTree "a b"), .plain ":c"]]
        rule := "phony"
        inputs := [.plain "d:$", .plain "| e"]
        orderOnly := [.plain "|||"] }
    let file := BuildFile.empty "build.yaml" (.forPlatform .linux)
    ∃ stored,
      (file.declareEdge edge).2.edges = [stored] ∧
        readBuildLine
            ((writeEdge file.target stored).text.takeWhile (· ≠ '\n')) =
          some
            { outputs := [.reference "srcdir" :: Symbol.ofText "/a b:c".toList]
              rule := Symbol.ofText "phony".toList
              inputs :=
                [Symbol.ofText "d:$".toList, Symbol.ofText "| e".toList]
              implicit := []
              orderOnly := [Symbol.ofText "|||".toList] } := by
  intro edge file
  obtain ⟨_, stored, isLast, _, readsBack⟩ :=
    readBuildLine_writeEdge_iff (BuildFile.reachable_empty "build.yaml" _)
      (show (file.declareEdge edge).1 = .ok () from rfl) (by decide) file.target
  exact ⟨stored, isLast, readsBack.mpr (by decide)⟩

end BuildGraph.Ninja
