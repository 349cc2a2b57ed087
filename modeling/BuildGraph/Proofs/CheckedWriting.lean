import BuildGraph.Proofs.Rendering
import BuildGraph.Proofs.Streaming
import BuildGraph.Proofs.Texts

namespace BuildGraph.Ninja

/-!
# What a check accepts can be written

A check looks at the texts of a value as they were given, and a writer at what it has made of
them: quoted, behind the root of a path, with `=` and `&&` between them.  They agree all the
same.  Quotes neither bring a line break nor take one away, and whatever else a writer puts in
is on a single line, so the first text with a line break is the first for both.
-/

/-! ## Texts as they are reported -/

/-- A report shows a text as it is quoted in some position. -/
def Shows (reported found : String) : Prop :=
  ∃ position quoting, reported.toList = (quoteFor position quoting found.toList).1

/-- A text as it is shows itself. -/
theorem Shows.refl
    (text : String) :
    Shows text text :=
  ⟨.clean, .never, rfl⟩

/-- Quotes for the shell leave every line break of a text in it. -/
theorem newline_mem_quoteFor
    {text : List Char}
    (broken : '\n' ∈ text)
    (position : Position)
    (quoting : Quoting) :
    '\n' ∈ (quoteFor position quoting text).1 := by
  have escaped : '\n' ∈ (Shell.escape text).1 := by
    rw [Shell.escape_eq]
    exact List.mem_flatMap.mpr ⟨'\n', broken, by decide⟩
  have wrapped : '\n' ∈ (Shell.quoteInfo text).1 := by
    show '\n' ∈ Shell.wrap (Shell.escape text).1 (Shell.escape text).2
    unfold Shell.wrap
    split
    · simp [escaped]
    · exact escaped
  unfold quoteFor
  split
  · exact wrapped
  · exact escaped
  · exact broken

/-! ## Outputs that stop at a text -/

namespace Output

/--
An output stops at the first of several texts that has a line break, and shows it; without
such a text it comes to its end.
-/
def HaltsAt (output : Output Result) (texts : List String) : Prop :=
  match Text.firstBroken texts with
  | none => ∃ result, output.outcome = .ok result
  | some found =>
      ∃ reported,
        output.outcome = .error (.illegalNewline reported) ∧ Shows reported.text found

theorem haltsAt_result
    (value : Result) :
    (result value).HaltsAt [] :=
  ⟨value, rfl⟩

theorem haltsAt_write
    (text : List Char) :
    (write text).HaltsAt [] :=
  ⟨(), rfl⟩

namespace HaltsAt

/-- It does not matter in which texts the first line break is found. -/
theorem congr
    {output : Output Result}
    {texts others : List String}
    (halts : output.HaltsAt texts)
    (sameBreak : Text.firstBroken texts = Text.firstBroken others) :
    output.HaltsAt others := by
  unfold HaltsAt at halts ⊢
  rwa [← sameBreak]

/-- Of two outputs the first one stops, if it has such a text, and the second one otherwise. -/
theorem andThen
    {first : Output First}
    {next : First → Output Second}
    {texts others : List String}
    (halts : first.HaltsAt texts)
    (continues : ∀ value, (next value).HaltsAt others) :
    (first.andThen next).HaltsAt (texts ++ others) := by
  rcases first with ⟨written, outcome⟩
  unfold HaltsAt at halts ⊢
  rw [Text.firstBroken_append]
  cases broken : Text.firstBroken texts with
  | some found =>
      rw [broken] at halts
      obtain ⟨reported, rfl, shows⟩ := halts
      exact ⟨reported, rfl, shows⟩
  | none =>
      rw [broken] at halts
      obtain ⟨value, rfl⟩ := halts
      exact continues value

/-- An output behind a text stops where it would without. -/
theorem behind
    {next : Output Result}
    {texts : List String}
    (halts : next.HaltsAt texts)
    (text : List Char) :
    ((write text).andThen fun _ => next).HaltsAt texts :=
  (haltsAt_write text).andThen fun _ => halts

/-- What is made of the result does not change where an output stops. -/
theorem returning
    {output : Output First}
    {texts : List String}
    (halts : output.HaltsAt texts)
    (change : First → Second) :
    (output.andThen fun value => result (change value)).HaltsAt texts := by
  have both := halts.andThen fun value => haltsAt_result (change value)
  rwa [List.append_nil] at both

/-- A text behind an output does not change where it stops. -/
theorem followed
    {output : Output Result}
    {texts : List String}
    (halts : output.HaltsAt texts)
    (text : List Char) :
    (output.andThen fun _ => write text).HaltsAt texts := by
  have both := halts.andThen fun _ => haltsAt_write text
  rwa [List.append_nil] at both

/-- An output that came to its end found nothing wrong with its texts. -/
theorem checkTexts_eq_ok
    {output : Output Result}
    {texts : List String}
    (halts : output.HaltsAt texts)
    {result : Result}
    (ended : output.outcome = .ok result) :
    Text.checkTexts texts = .ok () := by
  unfold HaltsAt at halts
  unfold Text.checkTexts
  cases broken : Text.firstBroken texts with
  | none =>
      rfl
  | some found =>
      rw [broken] at halts
      obtain ⟨reported, stopped, _⟩ := halts
      rw [ended] at stopped
      cases stopped

end HaltsAt

/-- Outputs one after the other stop at the first such text of all. -/
theorem haltsAt_forEach
    {write : Item → Output Unit}
    {textsOf : Item → List String}
    {items : List Item}
    (each : ∀ item ∈ items, (write item).HaltsAt (textsOf item)) :
    (forEach write items).HaltsAt (items.flatMap textsOf) := by
  induction items with
  | nil =>
      exact haltsAt_result ()
  | cons item rest inductionHypothesis =>
      rw [List.forall_mem_cons] at each
      rw [forEach, bind_eq_andThen, List.flatMap_cons]
      exact each.1.andThen fun _ => inductionHypothesis each.2

/-- Outputs with separators between them stop at the first such text of all. -/
theorem haltsAt_separated
    {separator : List Char}
    {write : Item → Output Unit}
    {textsOf : Item → List String}
    {items : List Item}
    (each : ∀ item ∈ items, (write item).HaltsAt (textsOf item)) :
    (separated separator write items).HaltsAt (items.flatMap textsOf) := by
  cases items with
  | nil =>
      exact haltsAt_result ()
  | cons item rest =>
      rw [List.forall_mem_cons] at each
      rw [separated, bind_eq_andThen, List.flatMap_cons]
      refine each.1.andThen fun _ => haltsAt_forEach fun next member => ?_
      exact (each.2 next member).behind separator

end Output

/-! ## Fragments -/

/-- A text is written unless it has a line break, quoted or not. -/
theorem haltsAt_writeEscaped
    (position written : Position)
    (quoting : Quoting)
    (text : String) :
    (writeEscaped written (quoteFor position quoting text.toList).1).HaltsAt [text] := by
  by_cases broken : '\n' ∈ text.toList
  · have stays := newline_mem_quoteFor broken position quoting
    have found : Text.firstBroken [text] = some text := by
      simp [Text.firstBroken, broken]
    rw [Output.HaltsAt, found]
    refine ⟨{ text := String.ofList (quoteFor position quoting text.toList).1 }, ?_,
      position, quoting, String.toList_ofList⟩
    simp [writeEscaped, escape, Text.checkSingleLine, stays, Except.map, Output.stop]
  · have stays := newline_notMem_quoteFor broken position quoting
    have none : Text.firstBroken [text] = none := by
      simp [Text.firstBroken, broken]
    rw [Output.HaltsAt, none]
    exact ⟨(), congrArg Output.outcome (writeEscaped_eq_write stays written)⟩

theorem haltsAt_require
    (text : String) :
    (Output.require (Text.checkSingleLine text.toList)).HaltsAt [text] := by
  by_cases broken : '\n' ∈ text.toList
  · have found : Text.firstBroken [text] = some text := by
      simp [Text.firstBroken, broken]
    rw [Output.HaltsAt, found]
    refine ⟨{ text }, ?_, .refl text⟩
    simp [Output.require, Text.checkSingleLine, broken, Output.stop]
  · have none : Text.firstBroken [text] = none := by
      simp [Text.firstBroken, broken]
    rw [Output.HaltsAt, none, Text.checkSingleLine_eq_ok broken]
    exact ⟨(), rfl⟩

/-- A leaf stops the writer just if its text has a line break. -/
theorem haltsAt_writeLeaf
    (position : Position)
    (quoting : Quoting)
    (leaf : Leaf) :
    (writeLeaf position quoting leaf).HaltsAt [leaf.text] := by
  cases leaf with
  | literal text =>
      exact (haltsAt_require text).andThen fun _ =>
        (Output.haltsAt_result true).behind text.toList
  | shellLiteral text =>
      exact (haltsAt_writeEscaped .clean position .never text).returning fun _ => true
  | plain text =>
      exact (haltsAt_writeEscaped position position quoting text).returning fun _ =>
        (quoteFor position quoting text.toList).2

theorem haltsAt_writeLeaves
    (position : Position)
    (quoting : Quoting)
    (leaves : List Leaf) :
    (writeLeaves position quoting leaves).HaltsAt (leaves.map Leaf.text) := by
  induction leaves with
  | nil =>
      exact Output.haltsAt_result false
  | cons leaf rest inductionHypothesis =>
      exact (haltsAt_writeLeaf position quoting leaf).andThen fun first =>
        inductionHypothesis.returning fun others => first || others

/-- Of the leaves of a path none but its suffix can have a line break. -/
theorem firstBroken_resolve
    (path : Path)
    (pathVariables : PathVariables) :
    Text.firstBroken ((path.resolve pathVariables).map Leaf.text) =
      Text.firstBroken [path.suffix] := by
  by_cases headless : path.head pathVariables = []
  · rw [Path.resolve_of_head_eq_nil headless]
    by_cases isEmpty : path.suffix = ""
    · simp [isEmpty, Path.suffixAlone, Leaf.text, Text.firstBroken]
    · simp [isEmpty, Path.suffixAlone, Leaf.text]
  · have references :
        Text.firstBroken
            ((path.head pathVariables).map fun var => (Leaf.literal var.reference).text) =
          none := by
      rw [Text.firstBroken_eq_none_iff, List.forall_mem_map]
      exact fun var _ => var.newline_notMem_reference
    have suffix :
        Text.firstBroken (Path.suffixAfterHead path.suffix) =
          Text.firstBroken [path.suffix] := by
      by_cases isEmpty : path.suffix = ""
      · simp [isEmpty, Path.suffixAfterHead, Text.firstBroken]
      · by_cases rooted : path.suffix.toList.head? = some '/'
        · simp [isEmpty, rooted, Path.suffixAfterHead]
        · simp [isEmpty, rooted, Path.suffixAfterHead, Text.firstBroken]
    have texts : (fun text => (Leaf.plain text).text) = id := rfl
    rw [Path.resolve_of_head_ne_nil headless, List.map_append, List.map_map, List.map_map,
      Text.firstBroken_append]
    simp only [Function.comp_def, references, texts, List.map_id, suffix, Option.none_or]

/-- A path stops the writer just if its suffix has a line break. -/
theorem haltsAt_writePath
    (target : Target)
    (position : Position)
    (path : Path) :
    (writePath target position path).HaltsAt [path.suffix] := by
  have inner :=
    (haltsAt_writeLeaves position .escape (path.resolve target.pathVariables)).congr
      (firstBroken_resolve path target.pathVariables)
  have sameOutcome :
      (writePath target position path).outcome =
        (writeLeaves position .escape (path.resolve target.pathVariables)).outcome := by
    rcases outcome :
        (writeLeaves position .escape (path.resolve target.pathVariables)).outcome with
      error | needsQuotes
    · simp only [writePath, outcome, Output.stop]
    · simp [writePath, outcome, Output.result]
  unfold Output.HaltsAt at inner ⊢
  rwa [sameOutcome]

mutual

/-- A fragment stops the writer at the first of its texts that has a line break. -/
theorem haltsAt_writeFragment
    (target : Target)
    (position : Position)
    (quoting : Quoting) :
    ∀ fragment : Fragment,
      (writeFragment target position quoting fragment).HaltsAt fragment.texts
  | .leaf leaf => by
      rw [writeFragment, Fragment.texts]
      exact haltsAt_writeLeaf position quoting leaf
  | .path path => by
      rw [writeFragment, Fragment.texts]
      exact haltsAt_writePath target position path
  | .concat parts => by
      rw [writeFragment, Fragment.texts]
      exact haltsAt_writeFragments target position quoting parts

theorem haltsAt_writeFragments
    (target : Target)
    (position : Position)
    (quoting : Quoting) :
    ∀ fragments : List Fragment,
      (writeFragments target position quoting fragments).HaltsAt
        (Fragment.textsOf fragments)
  | [] => Output.haltsAt_result false
  | fragment :: rest => by
      have head := haltsAt_writeFragment target position quoting fragment
      have others := haltsAt_writeFragments target position quoting rest
      rw [writeFragments, Fragment.textsOf]
      exact head.andThen fun first => others.returning fun other => first || other

end

/-! ## Commands and values -/

/-- Arguments without tools stop the writer at the first of their texts with a line break. -/
theorem haltsAt_writeArguments
    (target : Target)
    (position : Position)
    {arguments : List Argument}
    (toolless : Argument.toolsOf arguments = []) :
    (writeArguments target position [] arguments).HaltsAt
      (Argument.textsOf arguments) := by
  rw [writeArguments_eq_separated, Argument.textsOf_eq_flatMap]
  refine Output.haltsAt_separated fun argument member => ?_
  obtain ⟨fragment, rfl⟩ := exists_text_of_toolless toolless member
  exact (haltsAt_writeFragment target position .quote fragment).returning fun _ => ()

/-- An environment binding stops the writer as its name and its value do. -/
theorem haltsAt_writeBinding
    (target : Target)
    (binding : String × Fragment) :
    (writeBinding target binding).HaltsAt (bindingTexts binding) := by
  obtain ⟨name, value⟩ := binding
  have assignment :=
    haltsAt_writeFragment target .shell .quote
      (.concat [.plain name, .shellLiteral "=", value])
  -- The `=` between name and value has no line break of its own.
  have sameBreak :
      Text.firstBroken (Fragment.concat [.plain name, .shellLiteral "=", value]).texts =
        Text.firstBroken (bindingTexts (name, value)) := by
    simp [Fragment.texts, Fragment.textsOf, Leaf.text, bindingTexts, Text.firstBroken,
      List.find?_cons]
  exact ((assignment.congr sameBreak).returning fun _ => ()).behind _

theorem haltsAt_writeBindings
    (target : Target)
    (bindings : List (String × Fragment)) :
    (writeBindings target bindings).HaltsAt (bindings.flatMap bindingTexts) := by
  induction bindings with
  | nil =>
      exact Output.haltsAt_result ()
  | cons binding rest inductionHypothesis =>
      rw [List.flatMap_cons]
      exact (haltsAt_writeBinding target binding).andThen fun _ =>
        inductionHypothesis.behind lineSeparator

mutual

theorem haltsAt_writeLine
    (target : Target) :
    ∀ {line : Line},
      line.tools = [] →
      (writeLine target line).HaltsAt line.texts
  | .arguments arguments, toolless | .shellList arguments, toolless => by
      rw [Line.tools] at toolless
      rw [writeLine, Line.texts]
      exact haltsAt_writeArguments target .shell toolless
  | .script script, _ => by
      rw [writeLine, Line.texts]
      exact (haltsAt_writeFragment target .shell .never script).returning fun _ => ()
  | .nested commands, toolless => by
      rw [Line.tools] at toolless
      rw [writeLine, Line.texts]
      exact haltsAt_writeCommands target toolless

theorem haltsAt_writeFurtherLines
    (target : Target) :
    ∀ {lines : List Line},
      Line.toolsOf lines = [] →
      (writeFurtherLines target lines).HaltsAt (Line.textsOf lines)
  | [], _ => Output.haltsAt_result ()
  | line :: rest, toolless => by
      rw [Line.toolsOf, List.append_eq_nil_iff] at toolless
      have first := haltsAt_writeLine target toolless.1
      have others := haltsAt_writeFurtherLines target toolless.2
      rw [writeFurtherLines, Line.textsOf]
      exact (first.andThen fun _ => others).behind lineSeparator

/-- A command without tools stops the writer at the first of its texts with a line break. -/
theorem haltsAt_writeCommands
    (target : Target) :
    ∀ {commands : Commands},
      commands.tools = [] →
      (writeCommands target commands).HaltsAt commands.texts
  | .mk environment first rest, toolless => by
      rw [Commands.tools, List.append_eq_nil_iff] at toolless
      have bindings := haltsAt_writeBindings target environment.entries
      have head := haltsAt_writeLine target toolless.1
      have others := haltsAt_writeFurtherLines target toolless.2
      rw [writeCommands, Commands.texts]
      -- The envelope is text alone, so it stops nothing.
      by_cases envelope : needsEnvelope target (.mk environment first rest) = true
      · simp only [envelope, ↓reduceIte]
        exact (bindings.andThen fun _ => head.andThen fun _ => others.followed _).behind _
      · simp only [envelope, Bool.false_eq_true, ↓reduceIte,
          Output.bind_eq_andThen, Output.pure_eq_result, Output.andThen_result]
        exact bindings.andThen fun _ => head.andThen fun _ => others

end

/-- A value without tools stops the writer at the first of its texts with a line break. -/
theorem haltsAt_writeValue
    (target : Target)
    (position : Position)
    {value : Value}
    (toolless : value.tools = []) :
    (writeValue target position value).HaltsAt value.texts := by
  cases value with
  | text fragment =>
      rw [writeValue, Value.texts]
      exact (haltsAt_writeFragment target position .never fragment).returning fun _ => ()
  | words arguments =>
      rw [Value.tools] at toolless
      rw [writeValue, Value.texts]
      exact haltsAt_writeArguments target position toolless
  | sequence commands =>
      rw [Value.tools] at toolless
      rw [writeValue, Value.texts]
      exact haltsAt_writeCommands target toolless

/-! ## Checks and writers -/

/--
Writing agrees with a check: it comes to its end just if the check accepts, and otherwise it
stops at a line break, in the text that the check names.
-/
structure Agrees
    (ended : Except WriteError Result)
    (checked : Except Text.IllegalNewline Unit) :
    Prop where
  accepts : (∃ result, ended = .ok result) ↔ checked = .ok ()
  rejects :
    ∀ found,
      checked = .error found →
        ∃ reported,
          ended = .error (.render (.illegalNewline reported)) ∧
            Shows reported.text found.text

/-- Where nothing is refused, an output that stops at texts agrees with the check of them. -/
theorem agrees_handOver
    {receiver : Receiver State}
    (takesAll : ∀ text state, (receiver.put text state).1 = true)
    {output : Output Result}
    {texts : List String}
    (halts : output.HaltsAt texts)
    (state : State) :
    Agrees (receiver.handOver output state).1 (Text.checkTexts texts) := by
  have taken := takesAll output.text state
  have ended : (receiver.handOver output state).1 = output.outcome.mapError .render := by
    rw [Receiver.handOver_apply]
    rcases put : receiver.put output.text state with ⟨took, later⟩
    rw [put] at taken
    obtain rfl : took = true := taken
    rfl
  rw [ended]
  unfold Output.HaltsAt at halts
  unfold Text.checkTexts
  cases broken : Text.firstBroken texts with
  | none =>
      rw [broken] at halts
      obtain ⟨result, outcome⟩ := halts
      rw [outcome]
      exact ⟨iff_of_true ⟨result, rfl⟩ rfl, fun _ rejected => nomatch rejected⟩
  | some text =>
      rw [broken] at halts
      obtain ⟨reported, outcome, shows⟩ := halts
      rw [outcome]
      refine ⟨iff_of_false (fun ⟨_, accepted⟩ => nomatch accepted) nofun, ?_⟩
      rintro found ⟨⟩
      exact ⟨reported, rfl, shows⟩

/--
Checks and writers accept the same.  Handed over to a receiver that takes everything, a value
without tools is written to its end in every position just if its check accepts it, and
otherwise writing stops at a line break, in the text that the check names.  So is a fragment,
in every position and with every quoting.
-/
theorem agrees_emitValue_emitFragment
    {receiver : Receiver State}
    (takesAll : ∀ text state, (receiver.put text state).1 = true)
    (target : Target)
    (position : Position)
    (state : State) :
    (∀ value : Value,
        value.tools = [] →
          Agrees (emitValue receiver target position value state).1 value.check) ∧
      ∀ (quoting : Quoting) (fragment : Fragment),
        Agrees (emitFragment receiver target position quoting fragment state).1
          fragment.check := by
  constructor
  · intro value toolless
    rw [emitValue_eq_handOver, value.check_eq_checkTexts]
    exact agrees_handOver takesAll (haltsAt_writeValue target position toolless) state
  · intro quoting fragment
    rw [emitFragment_eq_handOver, fragment.check_eq_checkTexts]
    exact agrees_handOver takesAll
      (haltsAt_writeFragment target position quoting fragment) state

/--
A line break in a binding of a nested command stops the writer as it stops the check.  The
same command with another value bound is written to its end, and so is that value alone.
-/
theorem agrees_emitValue_emitFragment_nestedBinding :
    let target := Target.forPlatform .windows
    let build := fun flags =>
      Value.sequence
        (.mk .empty (.script (.plain "cd out"))
          [.nested
            (.mk (Table.empty.insert "CFLAGS" flags)
              (.shellList [.text (.path (.below .sourceTree "run me"))]) [])])
    let flags := Fragment.plain "-O2\t-g"
    let broken := "-O2\n-g"
    (∃ result,
        (emitValue Receiver.buffer target .input (build flags) []).1 = .ok result) ∧
      (∃ result,
        (emitFragment Receiver.buffer target .output .escape flags []).1 = .ok result) ∧
      ∃ reported,
        (emitValue Receiver.buffer target .input (build (.plain broken)) []).1 =
            .error (.render (.illegalNewline reported)) ∧
          Shows reported.text broken := by
  intro target build flags broken
  have takesAll : ∀ text state, (Receiver.buffer.put text state).1 = true :=
    fun _ _ => rfl
  have inInput := agrees_emitValue_emitFragment takesAll target .input []
  have inOutput := agrees_emitValue_emitFragment takesAll target .output []
  have rejected : (build (.plain broken)).check = .error { text := broken } := by
    decide +kernel
  exact ⟨(inInput.1 (build flags) rfl).accepts.mpr rfl,
    (inOutput.2 .escape flags).accepts.mpr rfl,
    (inInput.1 (build (.plain broken)) rfl).rejects _ rejected⟩

end BuildGraph.Ninja
