import BuildGraph.Proofs.CollapsedCommands
import BuildGraph.Proofs.CommandWords

namespace BuildGraph

/-!
# Envelopes in the text of a command

A command is a tree of sequences, and each of them contributes one stretch to the text: its
bindings and lines with `&&` between each two, where a nested sequence gives its own stretch
for a line.  Platforms differ in one point only, which of these stretches are put into the
envelope of a shell.  Where none is, the separators of all sequences come to stand side by
side, and the text is that of the pieces in depth-first order.
-/

/-! ## Joined texts -/

/-- Behind the first of joined texts each text follows a separator. -/
theorem intercalate_cons_eq_flatMap
    (separator first : List Item)
    (rest : List (List Item)) :
    separator.intercalate (first :: rest) = first ++ rest.flatMap (separator ++ ·) := by
  induction rest generalizing first with
  | nil =>
      simp
  | cons next others inductionHypothesis =>
      rw [List.intercalate_cons_cons, inductionHypothesis, List.flatMap_cons]
      simp

/-- Behind joined texts each further text follows a separator. -/
theorem intercalate_append_of_ne_nil
    (separator : List Item)
    {texts : List (List Item)}
    (notEmpty : texts ≠ [])
    (others : List (List Item)) :
    separator.intercalate (texts ++ others) =
      separator.intercalate texts ++ others.flatMap (separator ++ ·) := by
  obtain ⟨first, rest, rfl⟩ := List.exists_cons_of_ne_nil notEmpty
  rw [List.cons_append, intercalate_cons_eq_flatMap, intercalate_cons_eq_flatMap,
    List.flatMap_append, List.append_assoc]

/-- Texts that each follow a separator are joined texts behind one. -/
theorem flatMap_separator_append
    (separator : List Item)
    {texts : List (List Item)}
    (notEmpty : texts ≠ []) :
    texts.flatMap (separator ++ ·) = separator ++ separator.intercalate texts := by
  obtain ⟨first, rest, rfl⟩ := List.exists_cons_of_ne_nil notEmpty
  rw [intercalate_cons_eq_flatMap, List.flatMap_cons, List.append_assoc]

/-- Texts that each have a separator behind them are joined to what follows. -/
theorem intercalate_append_eq_flatMap
    (separator : List Item)
    (texts : List (List Item))
    {others : List (List Item)}
    (notEmpty : others ≠ []) :
    separator.intercalate (texts ++ others) =
      texts.flatMap (· ++ separator) ++ separator.intercalate others := by
  induction texts with
  | nil =>
      rfl
  | cons text rest inductionHypothesis =>
      have further : rest ++ others ≠ [] := by
        simp [notEmpty]
      rw [List.cons_append, List.intercalate_cons_of_ne_nil further, inductionHypothesis,
        List.flatMap_cons, List.append_assoc (text ++ separator)]

/-- Each of joined texts stands in them as it is. -/
theorem infix_intercalate
    (separator : List Item)
    {texts : List (List Item)}
    {text : List Item}
    (member : text ∈ texts) :
    text <:+: separator.intercalate texts := by
  obtain ⟨before, after, rfl⟩ := List.append_of_mem member
  rw [intercalate_append_eq_flatMap separator before (List.cons_ne_nil _ _),
    intercalate_cons_eq_flatMap, ← List.append_assoc]
  exact List.infix_append _ text _

/-! ## Sequences and what they contribute -/

mutual

/-- The sequences in a line. -/
def Line.sequences : Line → List Commands
  | .arguments _ | .shellList _ | .script _ => []
  | .nested commands => commands.sequences

/-- The sequences in several lines. -/
def Line.sequencesOf : List Line → List Commands
  | [] => []
  | line :: rest => line.sequences ++ Line.sequencesOf rest

/-- The sequences of a command: itself, and those in its lines. -/
def Commands.sequences : Commands → List Commands
  | .mk environment first rest =>
      .mk environment first rest :: (first.sequences ++ Line.sequencesOf rest)

end

namespace Ninja

section Contributions

variable
  (textOf : Piece → List Char)
  (enclosed : Commands → Bool)

/-- The texts of bindings, one by one. -/
def bindingTextsOf (bindings : List (String × Fragment)) : List (List Char) :=
  bindings.map fun binding => textOf (.binding binding.1 binding.2)

mutual

/-- What a line contributes to the text of a command. -/
def lineText : Line → List Char
  | .arguments arguments | .shellList arguments => textOf (.arguments arguments)
  | .script script => textOf (.script script)
  | .nested commands => sequenceText commands

/-- What several lines contribute, one by one. -/
def lineTexts : List Line → List (List Char)
  | [] => []
  | line :: rest => lineText line :: lineTexts rest

/-- What a sequence contributes: bindings and lines, in an envelope if it is enclosed. -/
def sequenceText : Commands → List Char
  | .mk environment first rest =>
      let joined :=
        lineSeparator.intercalate
          (bindingTextsOf textOf environment.entries ++ lineText first :: lineTexts rest)
      if enclosed (.mk environment first rest) then inEnvelope joined else joined

end

end Contributions

/-! ## Texts without envelopes -/

/-- No sequence is enclosed. -/
def noEnvelopes (_ : Commands) : Bool :=
  false

section Joined

variable (textOf : Piece → List Char)

mutual

theorem lineText_eq_intercalate :
    ∀ line : Line,
      lineText textOf noEnvelopes line =
        lineSeparator.intercalate (line.pieces.map textOf)
  | .arguments _ | .shellList _ | .script _ => by
      simp [lineText, Line.pieces]
  | .nested commands => by
      rw [lineText, Line.pieces]
      exact sequenceText_eq_intercalate commands

theorem flatMap_lineTexts :
    ∀ lines : List Line,
      (lineTexts textOf noEnvelopes lines).flatMap (lineSeparator ++ ·) =
        ((Line.piecesOf lines).map textOf).flatMap (lineSeparator ++ ·)
  | [] => by
      rw [lineTexts, Line.piecesOf]
      rfl
  | line :: rest => by
      -- A line has a piece, so the separator in front of it is that of its first piece.
      have notEmpty : line.pieces.map textOf ≠ [] :=
        mt List.map_eq_nil_iff.mp line.pieces_ne_nil
      rw [lineTexts, Line.piecesOf, List.map_append, List.flatMap_cons, List.flatMap_append,
        lineText_eq_intercalate line, flatMap_lineTexts rest,
        flatMap_separator_append lineSeparator notEmpty]

/-- Without envelopes a command has the text of its pieces, joined in depth-first order. -/
theorem sequenceText_eq_intercalate :
    ∀ commands : Commands,
      sequenceText textOf noEnvelopes commands =
        lineSeparator.intercalate (commands.pieces.map textOf)
  | .mk environment first rest => by
      have firstNotEmpty : first.pieces.map textOf ≠ [] :=
        mt List.map_eq_nil_iff.mp first.pieces_ne_nil
      have lines :
          lineSeparator.intercalate
              (lineText textOf noEnvelopes first :: lineTexts textOf noEnvelopes rest) =
            lineSeparator.intercalate ((first.pieces ++ Line.piecesOf rest).map textOf) := by
        rw [intercalate_cons_eq_flatMap, flatMap_lineTexts rest, lineText_eq_intercalate first,
          List.map_append, intercalate_append_of_ne_nil lineSeparator firstNotEmpty]
      have notEmpty : (first.pieces ++ Line.piecesOf rest).map textOf ≠ [] := by
        simp [first.pieces_ne_nil]
      have ownPieces :
          (Commands.mk environment first rest).pieces.map textOf =
            bindingTextsOf textOf environment.entries ++
              (first.pieces ++ Line.piecesOf rest).map textOf := by
        rw [Commands.pieces, List.map_append, List.map_map]
        rfl
      have notEnclosed : ¬ noEnvelopes (.mk environment first rest) = true :=
        Bool.false_ne_true
      rw [sequenceText, if_neg notEnclosed, ownPieces,
        intercalate_append_eq_flatMap _ _ (List.cons_ne_nil _ _), lines,
        ← intercalate_append_eq_flatMap _ _ notEmpty]

end

end Joined

/-! ## The length of envelopes -/

theorem length_inEnvelope
    (text : List Char) :
    (inEnvelope text).length = text.length + 12 := by
  show ("cmd /s /c \"".toList ++ (text ++ "\"".toList)).length = text.length + 12
  simp

section Lengths

variable
  (textOf : Piece → List Char)
  (enclosed : Commands → Bool)

mutual

theorem length_lineText :
    ∀ line : Line,
      (lineText textOf enclosed line).length =
        (lineText textOf noEnvelopes line).length + 12 * line.sequences.countP enclosed
  | .arguments _ | .shellList _ | .script _ => by
      simp [lineText, Line.sequences]
  | .nested commands => by
      rw [lineText, lineText, Line.sequences]
      exact length_sequenceText commands

theorem length_flatMap_lineTexts :
    ∀ lines : List Line,
      ((lineTexts textOf enclosed lines).flatMap (lineSeparator ++ ·)).length =
        ((lineTexts textOf noEnvelopes lines).flatMap (lineSeparator ++ ·)).length +
          12 * (Line.sequencesOf lines).countP enclosed
  | [] => by
      simp [lineTexts, Line.sequencesOf]
  | line :: rest => by
      have first := length_lineText line
      have others := length_flatMap_lineTexts rest
      simp only [lineTexts, Line.sequencesOf, List.flatMap_cons, List.length_append,
        List.countP_append]
      omega

/-- Every enclosed sequence makes the text longer by one envelope, and no other does. -/
theorem length_sequenceText :
    ∀ commands : Commands,
      (sequenceText textOf enclosed commands).length =
        (sequenceText textOf noEnvelopes commands).length +
          12 * commands.sequences.countP enclosed
  | .mk environment first rest => by
      have head := length_lineText first
      have others := length_flatMap_lineTexts rest
      simp only [sequenceText, Commands.sequences, List.countP_cons, List.countP_append,
        intercalate_append_eq_flatMap _ _ (List.cons_ne_nil _ _), intercalate_cons_eq_flatMap]
      by_cases isEnclosed : enclosed (.mk environment first rest) = true
      · simp only [isEnclosed, noEnvelopes, Bool.false_eq_true, ↓reduceIte, length_inEnvelope,
          List.length_append] at head others ⊢
        omega
      · simp only [isEnclosed, noEnvelopes, Bool.false_eq_true, ↓reduceIte,
          List.length_append] at head others ⊢
        omega

end

end Lengths

/-! ## Where sequences stand -/

section Places

variable
  (textOf : Piece → List Char)
  (enclosed : Commands → Bool)

mutual

theorem infix_lineText :
    ∀ {line : Line} {sequence : Commands},
      sequence ∈ line.sequences →
      sequenceText textOf enclosed sequence <:+: lineText textOf enclosed line
  | .arguments _, _, member | .shellList _, _, member | .script _, _, member => by
      rw [Line.sequences] at member
      contradiction
  | .nested commands, _, member => by
      rw [Line.sequences] at member
      rw [lineText]
      exact infix_sequenceText member

theorem infix_lineTexts :
    ∀ {lines : List Line} {sequence : Commands},
      sequence ∈ Line.sequencesOf lines →
      ∃ text ∈ lineTexts textOf enclosed lines,
        sequenceText textOf enclosed sequence <:+: text
  | [], _, member => by
      rw [Line.sequencesOf] at member
      contradiction
  | line :: rest, _, member => by
      rw [Line.sequencesOf, List.mem_append] at member
      rw [lineTexts]
      rcases member with inLine | inRest
      · exact ⟨_, List.mem_cons_self, infix_lineText inLine⟩
      · obtain ⟨text, inTexts, stands⟩ := infix_lineTexts inRest
        exact ⟨text, List.mem_cons_of_mem _ inTexts, stands⟩

/-- What a nested sequence contributes stands in the text as it is. -/
theorem infix_sequenceText :
    ∀ {commands sequence : Commands},
      sequence ∈ commands.sequences →
      sequenceText textOf enclosed sequence <:+: sequenceText textOf enclosed commands
  | .mk environment first rest, sequence, member => by
      rw [Commands.sequences, List.mem_cons, List.mem_append] at member
      rcases member with rfl | inLines
      · exact List.infix_rfl
      · have inside :
            ∃ text ∈ lineText textOf enclosed first :: lineTexts textOf enclosed rest,
              sequenceText textOf enclosed sequence <:+: text := by
          rcases inLines with inFirst | inRest
          · exact ⟨_, List.mem_cons_self, infix_lineText inFirst⟩
          · obtain ⟨text, inTexts, stands⟩ := infix_lineTexts inRest
            exact ⟨text, List.mem_cons_of_mem _ inTexts, stands⟩
        obtain ⟨text, inTexts, stands⟩ := inside
        have inJoined :=
          stands.trans
            (infix_intercalate lineSeparator
              (List.mem_append_right (bindingTextsOf textOf environment.entries) inTexts))
        rw [sequenceText]
        split
        · exact inJoined.trans (List.infix_append' _ _ _)
        · exact inJoined

end

end Places

/-! ## What the writer writes -/

namespace Output

/-- Pieces that are just texts are written as these, with the separator between each two. -/
theorem separated_eq_write
    {separator : List Char}
    {write : Item → Output Unit}
    {textOf : Item → List Char}
    {items : List Item}
    (each : ∀ item ∈ items, write item = Output.write (textOf item)) :
    separated separator write items =
      Output.write (separator.intercalate (items.map textOf)) := by
  cases items with
  | nil =>
      rfl
  | cons item rest =>
      rw [separated_cons_eq_write each, List.map_cons, intercalate_cons_eq_flatMap,
        List.flatMap_map]

end Output

/-- The text of an argument; a tool has none of its own. -/
def argumentText (target : Target) : Argument → List Char
  | .text fragment => (writtenFragment target .shell .quote fragment).text
  | .tool _ _ => []

/-- The text of a binding: its value is assigned to its name, which is exported. -/
def exportText (target : Target) (name : String) (value : Fragment) : List Char :=
  "export ".toList ++
    (escapeText .shell (Shell.quote name.toList) ++
      '=' :: (writtenFragment target .shell .quote value).text)

/--
The text of a piece: bindings are exported, arguments stand with a space between each two,
and a script is not quoted.
-/
def pieceText (target : Target) : Piece → List Char
  | .binding name value => exportText target name value
  | .arguments arguments => [' '].intercalate (arguments.map (argumentText target))
  | .script script => (writtenFragment target .shell .never script).text

theorem writeArguments_eq_write
    (target : Target)
    {arguments : List Argument}
    (checked : Argument.checkAll arguments = .ok ())
    (toolless : Argument.toolsOf arguments = []) :
    writeArguments target .shell [] arguments =
      Output.write (pieceText target (.arguments arguments)) := by
  rw [Argument.checkAll_eq_ok_iff] at checked
  rw [writeArguments_eq_separated, pieceText]
  refine Output.separated_eq_write fun argument member => ?_
  obtain ⟨fragment, rfl⟩ := exists_text_of_toolless toolless member
  have single := checked _ member
  rw [Argument.check] at single
  exact writeArgument_text_eq_write single target .shell

theorem writeBindings_eq_write
    (target : Target)
    {bindings : List (String × Fragment)}
    (checked : checkBindings bindings = .ok ()) :
    writeBindings target bindings =
      Output.write
        ((bindingTextsOf (pieceText target) bindings).flatMap (· ++ lineSeparator)) := by
  rw [checkBindings_eq_ok_iff] at checked
  induction bindings with
  | nil =>
      rfl
  | cons binding rest inductionHypothesis =>
      rw [List.forall_mem_cons] at checked
      have written :
          writeBinding target binding =
            Output.write (pieceText target (.binding binding.1 binding.2)) :=
        writeBinding_eq_write checked.1 target
      rw [writeBindings, written, inductionHypothesis checked.2]
      simp [bindingTextsOf, Output.write, Output.andThen]

mutual

theorem writeLine_eq_write
    (target : Target) :
    ∀ {line : Line},
      line.check = .ok () →
      line.tools = [] →
      writeLine target line =
        Output.write (lineText (pieceText target) (needsEnvelope target) line)
  | .arguments arguments, checked, toolless | .shellList arguments, checked, toolless => by
      rw [Line.check] at checked
      rw [Line.tools] at toolless
      rw [writeLine, lineText]
      exact writeArguments_eq_write target checked toolless
  | .script script, checked, _ => by
      rw [Line.check] at checked
      rw [writeLine, lineText]
      exact writeFragment_eq_write target .shell .never checked
  | .nested commands, checked, toolless => by
      rw [Line.check] at checked
      rw [Line.tools] at toolless
      rw [writeLine, lineText]
      exact writeCommands_eq_write target checked toolless

theorem writeFurtherLines_eq_write
    (target : Target) :
    ∀ {lines : List Line},
      Line.checkAll lines = .ok () →
      Line.toolsOf lines = [] →
      writeFurtherLines target lines =
        Output.write
          ((lineTexts (pieceText target) (needsEnvelope target) lines).flatMap
            (lineSeparator ++ ·))
  | [], _, _ => by
      rw [writeFurtherLines, lineTexts]
      rfl
  | line :: rest, checked, toolless => by
      rw [Line.checkAll, bind_eq_ok_iff] at checked
      rw [Line.toolsOf, List.append_eq_nil_iff] at toolless
      rw [writeFurtherLines, writeLine_eq_write target checked.1 toolless.1,
        writeFurtherLines_eq_write target checked.2 toolless.2, lineTexts]
      simp [Output.write, Output.andThen]

/--
A command without tools that passes its check is written whole, and the sequences that need
an envelope on the platform are the ones that are enclosed.
-/
theorem writeCommands_eq_write
    (target : Target) :
    ∀ {commands : Commands},
      commands.check = .ok () →
      commands.tools = [] →
      writeCommands target commands =
        Output.write (sequenceText (pieceText target) (needsEnvelope target) commands)
  | .mk environment first rest, checked, toolless => by
      rw [Commands.check, bind_eq_ok_iff, bind_eq_ok_iff] at checked
      rw [Commands.tools, List.append_eq_nil_iff] at toolless
      have unwrapped :
          writeUnwrapped target (.mk environment first rest) =
            Output.write
              (lineSeparator.intercalate
                (bindingTextsOf (pieceText target) environment.entries ++
                  lineText (pieceText target) (needsEnvelope target) first ::
                    lineTexts (pieceText target) (needsEnvelope target) rest)) := by
        rw [writeUnwrapped, writeBindings_eq_write target checked.1,
          writeLine_eq_write target checked.2.1 toolless.1,
          writeFurtherLines_eq_write target checked.2.2 toolless.2,
          intercalate_append_eq_flatMap _ _ (List.cons_ne_nil _ _),
          intercalate_cons_eq_flatMap]
        rfl
      rw [writeCommands_eq_unwrapped, unwrapped, sequenceText]
      by_cases envelope : needsEnvelope target (.mk environment first rest) = true
      · simp only [envelope, ↓reduceIte]
        rfl
      · simp only [envelope, Bool.false_eq_true, ↓reduceIte]

end

/-! ## Platforms -/

mutual

/-- What is written of a fragment depends on the variables for paths alone. -/
theorem writtenFragment_congr
    {target other : Target}
    (sameVariables : target.pathVariables = other.pathVariables)
    (position : Position)
    (quoting : Quoting) :
    ∀ fragment : Fragment,
      writtenFragment target position quoting fragment =
        writtenFragment other position quoting fragment
  | .leaf _ => by
      rw [writtenFragment, writtenFragment]
  | .path path => by
      rw [writtenFragment, writtenFragment, writtenPath, writtenPath, writtenParts,
        writtenParts, sameVariables]
  | .concat parts => by
      rw [writtenFragment, writtenFragment]
      exact writtenFragments_congr sameVariables position quoting parts

theorem writtenFragments_congr
    {target other : Target}
    (sameVariables : target.pathVariables = other.pathVariables)
    (position : Position)
    (quoting : Quoting) :
    ∀ fragments : List Fragment,
      writtenFragments target position quoting fragments =
        writtenFragments other position quoting fragments
  | [] => rfl
  | fragment :: rest => by
      rw [writtenFragments, writtenFragments,
        writtenFragment_congr sameVariables position quoting fragment,
        writtenFragments_congr sameVariables position quoting rest]

end

theorem pieceText_congr
    {target other : Target}
    (sameVariables : target.pathVariables = other.pathVariables) :
    pieceText target = pieceText other := by
  have sameArguments : argumentText target = argumentText other := by
    funext argument
    cases argument with
    | text fragment =>
        rw [argumentText, argumentText, writtenFragment_congr sameVariables]
    | tool name invocation =>
        rfl
  funext piece
  cases piece with
  | binding name value =>
      have sameValue := writtenFragment_congr sameVariables .shell .quote value
      exact congrArg
        (fun written : Written =>
          "export ".toList ++ (escapeText .shell (Shell.quote name.toList) ++ '=' :: written.text))
        sameValue
  | arguments items =>
      rw [pieceText, pieceText, sameArguments]
  | script text =>
      rw [pieceText, pieceText, writtenFragment_congr sameVariables]

/--
On a platform of the POSIX family a command without tools that passes its check has the text
of its pieces with `&&` between each two.  With the same variables for paths its text on
Windows has the same contributions, where just those of the sequences that need a shell are
enclosed: each sequence has its contribution in the text, and the text is longer by one
envelope for each that needs a shell.
-/
theorem writeCommands_posix_windows
    {posix windows : Target}
    (posixFamily : posix.platform.family = .posix)
    (windowsFamily : windows.platform.family = .windows)
    (sameVariables : windows.pathVariables = posix.pathVariables)
    {commands : Commands}
    (checked : commands.check = .ok ())
    (toolless : commands.tools = []) :
    let textOf := pieceText posix
    let joined := lineSeparator.intercalate (commands.pieces.map textOf)
    let wrapped := sequenceText textOf Commands.needsShell commands
    writeCommands posix commands = Output.write joined ∧
      joined = sequenceText textOf noEnvelopes commands ∧
      writeCommands windows commands = Output.write wrapped ∧
      (∀ sequence ∈ commands.sequences,
        sequenceText textOf Commands.needsShell sequence <:+: wrapped) ∧
      wrapped.length =
        joined.length + 12 * commands.sequences.countP Commands.needsShell := by
  intro textOf joined wrapped
  have noneOnPosix : needsEnvelope posix = noEnvelopes := by
    funext sequence
    simp [needsEnvelope, noEnvelopes, posixFamily]
  have shellsOnWindows : needsEnvelope windows = Commands.needsShell := by
    funext sequence
    simp [needsEnvelope, windowsFamily]
  have flat : sequenceText textOf noEnvelopes commands = joined :=
    sequenceText_eq_intercalate textOf commands
  refine ⟨?_, flat.symm, ?_, fun sequence member => infix_sequenceText _ _ member, ?_⟩
  · rw [writeCommands_eq_write posix checked toolless, noneOnPosix, flat]
  · rw [writeCommands_eq_write windows checked toolless, shellsOnWindows,
      pieceText_congr sameVariables]
  · rw [← flat]
    exact length_sequenceText textOf Commands.needsShell commands

/--
Two sequences nested in a third one: a lone argument vector, which stays as it is, and one
with a binding, whose envelope stands in that of the whole.
-/
theorem writeCommands_posix_windows_nested :
    let posix := Target.forPlatform .linux
    let windows : Target := { platform := .windows, pathVariables := posix.pathVariables }
    let compile :=
      Commands.single
        (.arguments [.text (.plain "cc"), .text (.path (.below .sourceTree "main.c"))])
    let filter :=
      Commands.mk (Table.empty.insert "LANG" (.plain "C")) (.script (.plain "sort | uniq")) []
    let commands :=
      Commands.mk (Table.empty.insert "OUT DIR" (.plain "a b")) (.nested compile)
        [.nested filter, .shellList [.text (.plain "ls"), .text (.shellLiteral ">log")]]
    let compiled := "export 'OUT DIR'='a b' && cc '$\x7bsrcdir\x7d/main.c' && "
    let filtered := "export LANG=C && sort | uniq"
    writeCommands posix commands =
        Output.write (compiled ++ filtered ++ " && ls >log").toList ∧
      writeCommands windows commands =
        Output.write
          ("cmd /s /c \"" ++ compiled ++
            "cmd /s /c \"" ++ filtered ++ "\"" ++ " && ls >log\"").toList := by
  intro posix windows compile filter commands compiled filtered
  obtain ⟨onPosix, _, onWindows, _⟩ :=
    @writeCommands_posix_windows posix windows rfl rfl rfl commands rfl rfl
  exact ⟨onPosix.trans (congrArg Output.write (by decide +kernel)),
    onWindows.trans (congrArg Output.write (by decide +kernel))⟩

end Ninja

end BuildGraph
