import BuildGraph.Proofs.Marks
import BuildGraph.Proofs.Pieces
import BuildGraph.Proofs.Spelling
import BuildGraph.Proofs.Written

namespace BuildGraph

/-!
# The words that a command runs with

A command goes through two readers: the backend expands what stands in the build file, and
the shell splits the result into words.  Whatever characters a command is made of, the
words that come out are the texts that its arguments and bindings stand for.
-/

/-- Whether an argument is ordinary text and no tool. -/
def Argument.isOrdinary : Argument → Bool
  | .text fragment => fragment.isOrdinary
  | .tool _ _ => false

/-- Whether a piece consists of ordinary text. -/
def Piece.isOrdinary : Piece → Bool
  | .binding _ value => value.isOrdinary
  | .arguments items => items.all Argument.isOrdinary
  | .script _ => false

/-- Whether all bindings and lines of a command, at any depth, are ordinary text. -/
def Commands.isOrdinary (commands : Commands) : Bool :=
  commands.pieces.all Piece.isOrdinary

section Words

variable
  (pathVariables : PathVariables)
  (values : String → List Char)

/-- The word of an argument; one that stands for nothing at all leaves none. -/
def Argument.words : Argument → List (List Char)
  | .text fragment =>
      if fragment.symbols pathVariables = [] then []
      else [fragment.value pathVariables values]
  | .tool _ _ => []

/-- The words of a piece. -/
def Piece.words : Piece → List (List Char)
  | .binding name value =>
      ["export".toList,
        name.toList ++ '=' :: value.value pathVariables values]
  | .arguments items =>
      items.flatMap (Argument.words pathVariables values)
  | .script _ => []

/-- The words of a command: those of its pieces, with `&&` between each two pieces. -/
def Commands.words (commands : Commands) : List (List Char) :=
  ["&&".toList].intercalate
    (commands.pieces.map (Piece.words pathVariables values))

end Words

namespace Ninja

/--
A written text expands to a text that spells what the given symbols stand for, and only
no symbols at all are written as nothing.
-/
def ConveysWord
    (values : String → List Char)
    (text : List Char)
    (symbols : List Symbol) :
    Prop :=
  ∃ expanded,
    expand values text = some expanded ∧
      Shell.Spells expanded (symbols.flatMap (Symbol.value values)) ∧
      (expanded = [] ↔ symbols = [])

namespace ConveysWord

theorem nil
    (values : String → List Char) :
    ConveysWord values [] [] :=
  ⟨[], rfl, .nil, by simp⟩

theorem append
    {values : String → List Char}
    {first second : List Char}
    {firstSymbols secondSymbols : List Symbol}
    (conveysFirst : ConveysWord values first firstSymbols)
    (conveysSecond : ConveysWord values second secondSymbols) :
    ConveysWord values (first ++ second) (firstSymbols ++ secondSymbols) := by
  obtain ⟨firstText, expandsFirst, spellsFirst, emptyFirst⟩ := conveysFirst
  obtain ⟨secondText, expandsSecond, spellsSecond, emptySecond⟩ := conveysSecond
  refine ⟨firstText ++ secondText, expand_append expandsFirst expandsSecond, ?_, ?_⟩
  · rw [List.flatMap_append]
    exact spellsFirst.append spellsSecond
  · rw [List.append_eq_nil_iff, List.append_eq_nil_iff, emptyFirst, emptySecond]

end ConveysWord

/-- Quotes stay where they are when the text between them is escaped. -/
theorem escapeText_wrap
    (text : List Char)
    (needsQuotes : Bool) :
    escapeText .shell (Shell.wrap text needsQuotes) =
      Shell.wrap (escapeText .shell text) needsQuotes := by
  cases needsQuotes with
  | false => rfl
  | true => simp [Shell.wrap, escapeText, isSpecial]

/-- A quoted and escaped text conveys its characters. -/
theorem conveysWord_quote
    (values : String → List Char)
    (word : List Char) :
    ConveysWord values (escapeText .shell (Shell.quote word))
      (Symbol.ofText word) := by
  refine ⟨Shell.quote word, expand_escapeText values .shell _, ?_, ?_⟩
  · rw [Symbol.flatMap_value_ofText]
    exact .quote word
  · rw [Shell.quote_eq_nil_iff]
    simp [Symbol.ofText]

/-- A path without variables is written as the quoted text of its suffix. -/
theorem writtenPath_text_of_head_eq_nil
    {target : Target}
    {path : Path}
    (headless : path.head target.pathVariables = []) :
    (writtenPath target .shell path).text =
      escapeText .shell
        (Shell.quote (Path.suffixAlone path.suffix).toList) := by
  show _ = escapeText .shell (Shell.wrap (Shell.escape _).1 (Shell.escape _).2)
  rw [escapeText_wrap]
  simp [writtenPath, writtenParts, Path.resolve_of_head_eq_nil headless,
    writtenLeaf, quoteFor, Written.concat, Written.append, Written.nothing]

/-- A path with variables is written between quotes, references and suffix together. -/
theorem writtenPath_text_of_head_ne_nil
    {target : Target}
    {path : Path}
    (hasHead : path.head target.pathVariables ≠ []) :
    (writtenPath target .shell path).text =
      Shell.wrap
        (((path.head target.pathVariables).flatMap fun var =>
            var.reference.toList) ++
          (Path.suffixAfterHead path.suffix).flatMap fun text =>
            escapeText .shell (Shell.escape text.toList).1)
        true := by
  have resolved := Path.resolve_of_head_ne_nil hasHead
  obtain ⟨var, others, head⟩ := List.exists_cons_of_ne_nil hasHead
  simp [writtenPath, writtenParts, resolved, Written.concat_text,
    Written.concat_needsQuotes, List.flatMap_map, writtenLeaf, quoteFor, head]

/-- What follows the references of a path between its quotes, once it is expanded. -/
def escapedSuffix (suffix : String) : List Char :=
  (Path.suffixAfterHead suffix).flatMap fun text => (Shell.escape text.toList).1

/-- Between its quotes a path with variables expands to their values and the suffix. -/
theorem expand_writtenPath
    (values : String → List Char)
    {target : Target}
    {path : Path}
    (hasHead : path.head target.pathVariables ≠ []) :
    expand values (writtenPath target .shell path).text =
      some
        (Shell.wrap
          (((path.head target.pathVariables).flatMap fun var => values var.name) ++
            escapedSuffix path.suffix)
          true) := by
  have quoteMark : expand values ['\''] = some ['\''] :=
    expand_of_dollarless (by decide) values
  have readReferences :
      expand values
          ((path.head target.pathVariables).flatMap fun var =>
            var.reference.toList) =
        some ((path.head target.pathVariables).flatMap fun var => values var.name) :=
    expand_flatMap fun var _ => expand_reference values var
  have readSuffix :
      expand values
          ((Path.suffixAfterHead path.suffix).flatMap fun text =>
            escapeText .shell (Shell.escape text.toList).1) =
        some (escapedSuffix path.suffix) :=
    expand_flatMap fun text _ => expand_escapeText values .shell _
  rw [writtenPath_text_of_head_ne_nil hasHead]
  exact expand_append quoteMark
    (expand_append (expand_append readReferences readSuffix) quoteMark)

/-- An escaped suffix is read between quotes as it follows the references. -/
theorem spellsQuoted_escapedSuffix
    (suffix : String) :
    Shell.SpellsQuoted (escapedSuffix suffix)
      ((Path.suffixAfterHead suffix).flatMap String.toList) :=
  .flatMap fun text _ => Shell.spellsQuoted_escape text.toList

/-- A path conveys what it stands for, if no value of a variable ends the quotes. -/
theorem conveysWord_writtenPath
    {values : String → List Char}
    (quoteless : ∀ name, '\'' ∉ values name)
    (target : Target)
    (path : Path) :
    ConveysWord values (writtenPath target .shell path).text
      (path.symbols target.pathVariables) := by
  by_cases headless : path.head target.pathVariables = []
  · rw [writtenPath_text_of_head_eq_nil headless,
      Path.symbols_of_head_eq_nil headless]
    exact conveysWord_quote values _
  · -- References and suffix stand between one pair of quotes, so it is the whole of them
    -- that has to be read between quotes.
    refine ⟨_, expand_writtenPath values headless, ?_, ?_⟩
    · rw [Path.flatMap_symbols_of_head_ne_nil headless]
      apply Shell.Spells.of_quoted
      refine .append (.of_quoteless ?_) (spellsQuoted_escapedSuffix path.suffix)
      intro member
      obtain ⟨var, _, inValue⟩ := List.mem_flatMap.mp member
      exact quoteless var.name inValue
    · have notEmpty := path.symbols_ne_nil target.pathVariables
      simp [Shell.wrap, notEmpty]

mutual

/-- An ordinary fragment conveys what it stands for. -/
theorem conveysWord_writtenFragment
    {values : String → List Char}
    (quoteless : ∀ name, '\'' ∉ values name)
    (target : Target) :
    ∀ {fragment : Fragment},
      fragment.isOrdinary = true →
      ConveysWord values (writtenFragment target .shell .quote fragment).text
        (fragment.symbols target.pathVariables)
  | .leaf (.plain text), _ =>
      conveysWord_quote values text.toList
  | .path path, _ => by
      rw [writtenFragment, Fragment.symbols]
      exact conveysWord_writtenPath quoteless target path
  | .concat parts, ordinary => by
      rw [Fragment.isOrdinary] at ordinary
      rw [writtenFragment, Fragment.symbols]
      exact conveysWord_writtenFragments quoteless target ordinary

/-- Ordinary fragments convey what they stand for, one after the other. -/
theorem conveysWord_writtenFragments
    {values : String → List Char}
    (quoteless : ∀ name, '\'' ∉ values name)
    (target : Target) :
    ∀ {fragments : List Fragment},
      Fragment.areOrdinary fragments = true →
      ConveysWord values (writtenFragments target .shell .quote fragments).text
        (Fragment.symbolsOf target.pathVariables fragments)
  | [], _ => .nil values
  | fragment :: rest, ordinary => by
      rw [Fragment.areOrdinary, Bool.and_eq_true] at ordinary
      exact (conveysWord_writtenFragment quoteless target ordinary.1).append
        (conveysWord_writtenFragments quoteless target ordinary.2)

end

/-- An output whose text expands to one that is read as the given words. -/
def ConveysWords
    (values : String → List Char)
    (output : Output Unit)
    (words : List (List Char)) :
    Prop :=
  ∃ text expanded,
    output = ⟨text, .ok ()⟩ ∧
      expand values text = some expanded ∧
      Shell.ReadsAs expanded words

namespace ConveysWords

/-- Nothing is read as no words. -/
theorem result
    (values : String → List Char) :
    ConveysWords values (Output.result ()) [] :=
  ⟨[], [], rfl, rfl, .nil⟩

/-- A text that conveys a word is read as that word, unless it conveys nothing. -/
theorem write
    {values : String → List Char}
    {text : List Char}
    {symbols : List Symbol}
    (conveys : ConveysWord values text symbols) :
    ConveysWords values (Output.write text)
      (if symbols = [] then []
        else [symbols.flatMap (Symbol.value values)]) := by
  obtain ⟨expanded, expands, spells, empty⟩ := conveys
  refine ⟨text, expanded, rfl, expands, ?_⟩
  by_cases noSymbols : symbols = []
  · rw [if_pos noSymbols, empty.mpr noSymbols]
    exact .nil
  · rw [if_neg noSymbols]
    exact .of_spells spells (mt empty.mp noSymbols)

/-- With a space between them two outputs are read one after the other. -/
theorem andThen_space
    {values : String → List Char}
    {first second : Output Unit}
    {words others : List (List Char)}
    (conveysFirst : ConveysWords values first words)
    (conveysSecond : ConveysWords values second others) :
    ConveysWords values
      (first.andThen fun _ => (Output.write [' ']).andThen fun _ => second)
      (words ++ others) := by
  obtain ⟨firstText, firstExpanded, rfl, expandsFirst, readsFirst⟩ := conveysFirst
  obtain ⟨secondText, secondExpanded, rfl, expandsSecond, readsSecond⟩ :=
    conveysSecond
  have expandsSpace : expand values [' '] = some [' '] :=
    expand_of_dollarless (by decide) values
  exact
    ⟨firstText ++ ([' '] ++ secondText),
      firstExpanded ++ ([' '] ++ secondExpanded), rfl,
      expand_append expandsFirst (expand_append expandsSpace expandsSecond),
      readsFirst.append_space readsSecond⟩

/-- With `&&` between them two outputs are read with that word between them. -/
theorem andThen_lineSeparator
    {values : String → List Char}
    {first second : Output Unit}
    {words others : List (List Char)}
    (conveysFirst : ConveysWords values first words)
    (conveysSecond : ConveysWords values second others) :
    ConveysWords values
      (first.andThen fun _ =>
        (Output.write lineSeparator).andThen fun _ => second)
      (words ++ "&&".toList :: others) := by
  have ampersand : Shell.Spells ['&'] ['&'] :=
    .character (by decide) (by decide)
  have operator :
      ConveysWords values (Output.write "&&".toList) ["&&".toList] :=
    ⟨"&&".toList, "&&".toList, rfl, expand_of_dollarless (by decide) values,
      .of_spells (ampersand.append ampersand) (by decide)⟩
  have joined := conveysFirst.andThen_space (operator.andThen_space conveysSecond)
  simpa [lineSeparator] using joined

/--
Separated outputs are read with the words in between that the separator is read as.

The hypothesis `joins` says so of two outputs; the induction carries it to any number.
-/
theorem separated
    {values : String → List Char}
    {separator : List Char}
    (between : List (List Char))
    (joins :
      ∀ {first second : Output Unit} {words others : List (List Char)},
        ConveysWords values first words →
        ConveysWords values second others →
        ConveysWords values
          (first.andThen fun _ =>
            (Output.write separator).andThen fun _ => second)
          (words ++ (between ++ others)))
    {write : Item → Output Unit}
    {words : Item → List (List Char)}
    {items : List Item}
    (each : ∀ item ∈ items, ConveysWords values (write item) (words item)) :
    ConveysWords values (Output.separated separator write items)
      (between.intercalate (items.map words)) := by
  induction items with
  | nil =>
      exact .result values
  | cons item rest inductionHypothesis =>
      rw [List.forall_mem_cons] at each
      by_cases isLast : rest = []
      · subst isLast
        rw [Output.separated_singleton, List.map_singleton,
          List.intercalate_singleton]
        exact each.1
      · have shape :
            Output.separated separator write (item :: rest) =
              (write item).andThen fun _ =>
                (Output.write separator).andThen fun _ =>
                  Output.separated separator write rest := by
          rw [← Output.forEach_separator separator write isLast]
          rfl
        have more : rest.map words ≠ [] := by
          simpa using isLast
        rw [shape, List.map_cons, List.intercalate_cons_of_ne_nil more,
          List.append_assoc]
        exact joins each.1 (inductionHypothesis each.2)

end ConveysWords

/-- An argument of text on a single line writes that text alone. -/
theorem writeArgument_text_eq_write
    {fragment : Fragment}
    (checked : fragment.check = .ok ())
    (target : Target)
    (position : Position) :
    writeArgument target position (.text fragment) =
      Output.write (writtenFragment target position .quote fragment).text := by
  rw [writeArgument]
  exact writeFragment_eq_write target position .quote checked

/-- A binding on a single line writes the assignment of its value to its name. -/
theorem writeBinding_eq_write
    {name : String}
    {value : Fragment}
    (checked : (Piece.binding name value).check = .ok ())
    (target : Target) :
    writeBinding target (name, value) =
      Output.write
        ("export ".toList ++
          (escapeText .shell (Shell.quote name.toList) ++
            '=' :: (writtenFragment target .shell .quote value).text)) := by
  rw [writeBinding,
    writeFragment_eq_write target .shell .quote (Piece.check_assignment checked)]
  simp [Output.andThen, Output.write, writtenFragment, writtenFragments, writtenLeaf,
    quoteFor, Written.append, Written.nothing, Shell.quote, escapeText, isSpecial]

/-- With nothing between them lists are put together as they are. -/
theorem nil_intercalate
    (lists : List (List Item)) :
    [].intercalate lists = lists.flatten := by
  induction lists with
  | nil =>
      rfl
  | cons first rest inductionHypothesis =>
      by_cases isLast : rest = []
      · simp [isLast]
      · rw [List.intercalate_cons_of_ne_nil isLast, inductionHypothesis]
        simp

section Accepted

variable
  (target : Target)
  {values : String → List Char}

/-- An ordinary argument is read as its word. -/
theorem conveysWords_writeArgument
    (quoteless : ∀ name, '\'' ∉ values name)
    {argument : Argument}
    (ordinary : argument.isOrdinary = true)
    (checked : argument.check = .ok ()) :
    ConveysWords values (writeArgument target .shell argument)
      (argument.words target.pathVariables values) := by
  cases argument with
  | text fragment =>
      rw [Argument.isOrdinary] at ordinary
      rw [Argument.check] at checked
      rw [writeArgument_text_eq_write checked]
      exact .write (conveysWord_writtenFragment quoteless target ordinary)
  | tool name invocation =>
      simp [Argument.isOrdinary] at ordinary

/-- Ordinary arguments are read as their words. -/
theorem conveysWords_writeArguments
    (quoteless : ∀ name, '\'' ∉ values name)
    {arguments : List Argument}
    (ordinary : ∀ argument ∈ arguments, argument.isOrdinary = true)
    (checked : ∀ argument ∈ arguments, argument.check = .ok ()) :
    ConveysWords values (writeArguments target .shell [] arguments)
      (arguments.flatMap (Argument.words target.pathVariables values)) := by
  have conveys :=
    ConveysWords.separated []
      (fun first second => first.andThen_space second)
      fun argument member =>
        conveysWords_writeArgument target quoteless
          (ordinary argument member) (checked argument member)
  rw [writeArguments_eq_separated]
  rwa [nil_intercalate, ← List.flatMap_def] at conveys

/-- A binding is read as `export` and an assignment. -/
theorem conveysWords_writeBinding
    (quoteless : ∀ name, '\'' ∉ values name)
    {name : String}
    {value : Fragment}
    (ordinary : value.isOrdinary = true)
    (checked : (Piece.binding name value).check = .ok ()) :
    ConveysWords values (writeBinding target (name, value))
      ((Piece.binding name value).words target.pathVariables values) := by
  have equals : ConveysWord values ['='] [.plain '='] :=
    ⟨['='], expand_of_dollarless (by decide) values,
      .character (by decide) (by decide), by simp⟩
  have assignment :=
    ConveysWords.write
      ((conveysWord_quote values name.toList).append
        (equals.append (conveysWord_writtenFragment quoteless target ordinary)))
  have keyword :
      ConveysWords values (Output.write "export".toList) ["export".toList] :=
    .write (conveysWord_quote values "export".toList)
  have shape :
      writeBinding target (name, value) =
        (Output.write "export".toList).andThen fun _ =>
          (Output.write [' ']).andThen fun _ =>
            Output.write
              (escapeText .shell (Shell.quote name.toList) ++
                (['='] ++
                  (writtenFragment target .shell .quote value).text)) := by
    rw [writeBinding_eq_write checked]
    simp [Output.andThen, Output.write]
  have joined := keyword.andThen_space assignment
  rw [shape, Piece.words]
  simpa [Symbol.value, Fragment.value] using joined

/-- A piece of ordinary text is read as its words. -/
theorem conveysWords_writePiece
    (quoteless : ∀ name, '\'' ∉ values name)
    {piece : Piece}
    (ordinary : piece.isOrdinary = true)
    (checked : piece.check = .ok ()) :
    ConveysWords values (writePiece target piece)
      (piece.words target.pathVariables values) := by
  cases piece with
  | binding name value =>
      exact conveysWords_writeBinding target quoteless ordinary checked
  | arguments items =>
      rw [Piece.isOrdinary, List.all_eq_true] at ordinary
      rw [Piece.check, Argument.checkAll_eq_ok_iff] at checked
      exact conveysWords_writeArguments target quoteless ordinary checked
  | script text =>
      simp [Piece.isOrdinary] at ordinary

end Accepted

/--
Expanding and then splitting a written command gives the words that the command stands
for, whatever characters it is made of and however deep its lines are nested.
-/
theorem split_expand_writeCommands
    {target : Target}
    (posix : target.platform.family = .posix)
    {commands : Commands}
    (ordinary : commands.isOrdinary = true)
    (checked : commands.check = .ok ())
    {values : String → List Char}
    (quoteless : ∀ name, '\'' ∉ values name) :
    ∃ text,
      writeCommands target commands = ⟨text, .ok ()⟩ ∧
        (expand values text).bind Shell.split =
          some (commands.words target.pathVariables values) := by
  rw [Commands.isOrdinary, List.all_eq_true] at ordinary
  rw [Commands.check_eq_ok_iff] at checked
  have conveys :=
    ConveysWords.separated ["&&".toList]
      (fun first second => first.andThen_lineSeparator second)
      fun piece member =>
        conveysWords_writePiece target quoteless
          (ordinary piece member) (checked piece member)
  obtain ⟨text, expanded, written, expands, reads⟩ := conveys
  refine ⟨text, ?_, ?_⟩
  · rw [writeCommands_eq_writePieces posix]
    exact written
  · rw [expands, Option.bind_some, reads.split_eq]
    rfl

/-- Bindings, paths, quotes and dollar signs of a nested command all reach the shell. -/
theorem split_expand_writeCommands_nested :
    ∃ text,
      writeCommands (.forPlatform .linux)
          (.mk (Table.empty.insert "A B" (.plain "it's"))
            (.arguments
              [.text
                (.concat [.plain "-I", .path (.below .sourceTree "a b")])])
            [.nested
              (.single (.shellList [.text (.plain "$x"), .text (.plain "")]))]) =
          ⟨text, .ok ()⟩ ∧
        (expand (fun _ => "/s r".toList) text).bind Shell.split =
          some
            ["export".toList, "A B=it's".toList, "&&".toList,
              "-I/s r/a b".toList, "&&".toList, "$x".toList] :=
  split_expand_writeCommands rfl rfl rfl fun _ => by decide

/--
An empty argument is written as nothing, and the shell reads no word where nothing
stands, not even the empty word that the argument stands for.
-/
theorem split_expand_writeCommands_empty_argument :
    let target := Target.forPlatform .linux
    let commands := Commands.single (.arguments [.text (.plain "")])
    target.platform.family = .posix ∧
      commands.isOrdinary = true ∧
      commands.check = .ok () ∧
      (expand (fun _ => []) (writeCommands target commands).text).bind
          Shell.split ≠
        some [(Fragment.plain "").value target.pathVariables fun _ => []] :=
  ⟨rfl, rfl, rfl, by decide⟩

end Ninja

end BuildGraph
