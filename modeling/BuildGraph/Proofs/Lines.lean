import BuildGraph.Ninja.File
import BuildGraph.Proofs.Written
import BuildGraph.Text.Place

namespace BuildGraph

/-!
# Lines

A build file is read line by line.  What stands between the line breaks that the forms of
a build file have of themselves is written by writers that check all text they are given,
so none of them ever breaks its line, whatever is written and wherever writing stops.
-/

namespace Text

/-- Lines one after the other, each with a line break behind it. -/
def unlines (lines : List (List Char)) : List Char :=
  lines.flatMap fun line => line ++ ['\n']

/-- The lines of a text, without the line breaks that end them. -/
def linesOf (text : List Char) : List (List Char) :=
  (linesWithBreaks text).map fun line => line.takeWhile (· ≠ '\n')

theorem unlines_singleton
    (line : List Char) :
    unlines [line] = line ++ ['\n'] :=
  List.flatMap_singleton _ _

theorem unlines_cons
    (line : List Char)
    (rest : List (List Char)) :
    unlines (line :: rest) = line ++ '\n' :: unlines rest := by
  rw [unlines, List.flatMap_cons, List.append_assoc]
  rfl

theorem unlines_append
    (first second : List (List Char)) :
    unlines (first ++ second) = unlines first ++ unlines second :=
  List.flatMap_append

theorem unlines_flatMap
    (items : List Item)
    (lines : Item → List (List Char)) :
    unlines (items.flatMap lines) = items.flatMap fun item => unlines (lines item) :=
  List.flatMap_assoc

/-- A text with a line break at its end consists of lines. -/
theorem exists_unlines
    (text : List Char) :
    ∃ first further,
      (∀ line ∈ first :: further, '\n' ∉ line) ∧
        unlines (first :: further) = text ++ ['\n'] := by
  induction text with
  | nil =>
      exact ⟨[], [], by simp, rfl⟩
  | cons character rest inductionHypothesis =>
      obtain ⟨first, further, single, shape⟩ := inductionHypothesis
      by_cases isBreak : character = '\n'
      · refine
          ⟨[], first :: further, List.forall_mem_cons.mpr ⟨List.not_mem_nil, single⟩, ?_⟩
        rw [isBreak, List.cons_append, ← shape]
        rfl
      · rw [List.forall_mem_cons] at single
        refine ⟨character :: first, further, List.forall_mem_cons.mpr ⟨?_, single.2⟩, ?_⟩
        · rw [List.mem_cons, not_or]
          exact ⟨Ne.symm isBreak, single.1⟩
        · rw [List.cons_append, ← shape]
          rfl

/-- The end of a text is on a line behind all others. -/
theorem exists_unlines_append
    (text : List Char) :
    ∃ before line,
      text = unlines before ++ line ∧
        (∀ other ∈ before, '\n' ∉ other) ∧ '\n' ∉ line := by
  obtain ⟨first, further, single, shape⟩ := exists_unlines text
  obtain isEmpty | ⟨before, line, lines⟩ := (first :: further).eq_nil_or_concat
  · cases isEmpty
  · rw [List.concat_eq_append] at lines
    rw [lines, List.forall_mem_append, List.forall_mem_singleton] at single
    rw [lines, unlines_append, unlines_singleton, ← List.append_assoc] at shape
    exact ⟨before, line, (List.append_cancel_right shape).symm, single.1, single.2⟩

/-- No character is lost when a text is cut into lines. -/
theorem flatten_linesWithBreaks
    (text : List Char) :
    (linesWithBreaks text).flatten = text := by
  induction text with
  | nil =>
      rfl
  | cons character rest inductionHypothesis =>
      rw [linesWithBreaks]
      split
      · rw [List.flatten_cons, inductionHypothesis]
        rfl
      · split
        · rename_i noLine
          rw [noLine] at inductionHypothesis
          simp [← inductionHypothesis]
        · rename_i shape
          rw [shape] at inductionHypothesis
          simp [← inductionHypothesis]

theorem linesWithBreaks_append
    {line : List Char}
    (single : '\n' ∉ line)
    (rest : List Char) :
    linesWithBreaks (line ++ '\n' :: rest) =
      (line ++ ['\n']) :: linesWithBreaks rest := by
  induction line with
  | nil =>
      simp [linesWithBreaks]
  | cons character others inductionHypothesis =>
      rw [List.mem_cons, not_or] at single
      have noBreak : character ≠ '\n' := fun isBreak => single.1 isBreak.symm
      simp [linesWithBreaks, noBreak, inductionHypothesis single.2]

/-- A text without the separator is read on to what follows it. -/
theorem takeWhile_append_of_separatorless
    {separator : Char}
    {text : List Char}
    (notMem : separator ∉ text)
    (rest : List Char) :
    (text ++ rest).takeWhile (· ≠ separator) = text ++ rest.takeWhile (· ≠ separator) := by
  apply List.takeWhile_append_of_pos
  intro character member
  have different : character ≠ separator := by
    rintro rfl
    exact notMem member
  simpa using different

/-- What stands in front of the first separator is read up to it. -/
theorem takeWhile_append_of_notMem
    {separator : Char}
    {text : List Char}
    (notMem : separator ∉ text)
    (rest : List Char) :
    (text ++ separator :: rest).takeWhile (· ≠ separator) = text := by
  rw [takeWhile_append_of_separatorless notMem]
  simp

/-- Lines without line breaks are what is read of them. -/
theorem linesOf_unlines
    {lines : List (List Char)}
    (single : ∀ line ∈ lines, '\n' ∉ line) :
    linesOf (unlines lines) = lines := by
  induction lines with
  | nil =>
      rfl
  | cons line rest inductionHypothesis =>
      rw [List.forall_mem_cons] at single
      have whole := takeWhile_append_of_notMem single.1 []
      have others := inductionHypothesis single.2
      rw [linesOf] at others ⊢
      rw [unlines_cons, linesWithBreaks_append single.1, List.map_cons, whole]
      exact congrArg (line :: ·) others

end Text

namespace Ninja

namespace Output

/-- What was written holds no line break, whether or not writing came to an end. -/
def OnOneLine (output : Output Result) : Prop :=
  '\n' ∉ output.text

theorem onOneLine_result
    (value : Result) :
    (result value).OnOneLine :=
  List.not_mem_nil

theorem onOneLine_stop
    (error : RenderError) :
    (stop error : Output Result).OnOneLine :=
  List.not_mem_nil

theorem onOneLine_write
    {text : List Char}
    (single : '\n' ∉ text) :
    (write text).OnOneLine :=
  single

theorem OnOneLine.andThen
    {first : Output First}
    {next : First → Output Second}
    (firstSingle : first.OnOneLine)
    (nextSingle : ∀ value, (next value).OnOneLine) :
    (first.andThen next).OnOneLine := by
  rcases first with ⟨text, error | value⟩
  · exact firstSingle
  · intro member
    rcases List.mem_append.mp member with inFirst | inNext
    · exact firstSingle inFirst
    · exact nextSingle value inNext

theorem onOneLine_forEach
    {write : Item → Output Unit}
    (each : ∀ item, (write item).OnOneLine)
    (items : List Item) :
    (forEach write items).OnOneLine := by
  induction items with
  | nil =>
      exact onOneLine_result ()
  | cons item rest inductionHypothesis =>
      exact (each item).andThen fun _ => inductionHypothesis

theorem onOneLine_separated
    {separator : List Char}
    (single : '\n' ∉ separator)
    {write : Item → Output Unit}
    (each : ∀ item, (write item).OnOneLine)
    (items : List Item) :
    (separated separator write items).OnOneLine := by
  cases items with
  | nil =>
      exact onOneLine_result ()
  | cons item rest =>
      apply (each item).andThen
      intro _
      apply onOneLine_forEach
      intro next
      exact (onOneLine_write single).andThen fun _ => each next

end Output

open Output

/-! ## Writers that stay on their line -/

theorem onOneLine_writeEscaped
    (position : Position)
    (text : List Char) :
    (writeEscaped position text).OnOneLine := by
  rcases checked : Text.checkSingleLine text with illegal | ⟨⟩
  · rw [writeEscaped, escape, checked]
    exact onOneLine_stop _
  · have single := Text.checkSingleLine_eq_ok_iff.mp checked
    rw [writeEscaped_eq_write single]
    exact onOneLine_write (newline_notMem_escapeText single position)

theorem onOneLine_writeLeaf
    (position : Position)
    (quoting : Quoting)
    (leaf : Leaf) :
    (writeLeaf position quoting leaf).OnOneLine := by
  cases leaf with
  | literal text =>
      rcases checked : Text.checkSingleLine text.toList with illegal | ⟨⟩
      · rw [writeLeaf, checked]
        exact onOneLine_stop _
      · have single : '\n' ∉ (Leaf.literal text).text.toList :=
          Text.checkSingleLine_eq_ok_iff.mp checked
        rw [writeLeaf_eq_output single]
        exact single
  | shellLiteral text =>
      exact (onOneLine_writeEscaped position _).andThen fun _ => onOneLine_result true
  | plain text =>
      exact (onOneLine_writeEscaped position _).andThen fun _ => onOneLine_result _

theorem onOneLine_writeLeaves
    (position : Position)
    (quoting : Quoting)
    (leaves : List Leaf) :
    (writeLeaves position quoting leaves).OnOneLine := by
  induction leaves with
  | nil =>
      exact onOneLine_result false
  | cons leaf rest inductionHypothesis =>
      apply (onOneLine_writeLeaf position quoting leaf).andThen
      intro _
      exact inductionHypothesis.andThen fun _ => onOneLine_result _

/-- The quotes around a path break no line either. -/
theorem onOneLine_writePath
    (target : Target)
    (position : Position)
    (path : Path) :
    (writePath target position path).OnOneLine := by
  have inner :=
    onOneLine_writeLeaves position .escape (path.resolve target.pathVariables)
  rw [writePath]
  generalize writeLeaves position .escape (path.resolve target.pathVariables) = leaves
    at inner ⊢
  rcases leaves with ⟨text, error | needsQuotes⟩
  · exact onOneLine_stop error
  · refine OnOneLine.andThen ?_ fun _ => onOneLine_result needsQuotes
    apply onOneLine_write
    unfold Shell.wrap
    split
    · have inside : '\n' ∉ text := inner
      simp [inside]
    · exact inner

mutual

theorem onOneLine_writeFragment
    (target : Target)
    (position : Position)
    (quoting : Quoting) :
    ∀ fragment : Fragment, (writeFragment target position quoting fragment).OnOneLine
  | .leaf leaf => by
      rw [writeFragment]
      exact onOneLine_writeLeaf position quoting leaf
  | .path path => by
      rw [writeFragment]
      exact onOneLine_writePath target position path
  | .concat parts => by
      rw [writeFragment]
      exact onOneLine_writeFragments target position quoting parts

theorem onOneLine_writeFragments
    (target : Target)
    (position : Position)
    (quoting : Quoting) :
    ∀ fragments : List Fragment,
      (writeFragments target position quoting fragments).OnOneLine
  | [] => onOneLine_result false
  | fragment :: rest => by
      rw [writeFragments]
      apply (onOneLine_writeFragment target position quoting fragment).andThen
      intro _
      apply (onOneLine_writeFragments target position quoting rest).andThen
      intro _
      exact onOneLine_result _

end

/-- A fragment stays on its line where the report about quotes is dropped, too. -/
theorem onOneLine_writeFragment_andThen
    (target : Target)
    (position : Position)
    (quoting : Quoting)
    (fragment : Fragment) :
    ((writeFragment target position quoting fragment).andThen fun _ =>
      result ()).OnOneLine :=
  (onOneLine_writeFragment target position quoting fragment).andThen fun _ =>
    onOneLine_result ()

theorem onOneLine_writeEach
    (target : Target)
    (position : Position)
    {lead : List Char}
    (single : '\n' ∉ lead)
    (fragments : List Fragment) :
    (writeEach target position lead fragments).OnOneLine := by
  cases fragments with
  | nil =>
      exact onOneLine_result ()
  | cons first rest =>
      apply (onOneLine_write single).andThen
      intro _
      apply onOneLine_separated (by decide)
      exact onOneLine_writeFragment_andThen target position .quote

theorem onOneLine_writeArgument
    (target : Target)
    (position : Position)
    (argument : Argument) :
    (writeArgument target position argument).OnOneLine := by
  cases argument with
  | text fragment =>
      exact onOneLine_writeFragment_andThen target position .quote fragment
  | tool name invocation =>
      exact onOneLine_stop _

theorem onOneLine_writeArguments
    (target : Target)
    (position : Position)
    (arguments : List Argument) :
    (writeArguments target position [] arguments).OnOneLine := by
  cases arguments with
  | nil =>
      exact onOneLine_result ()
  | cons first rest =>
      apply (onOneLine_write List.not_mem_nil).andThen
      intro _
      apply onOneLine_separated (by decide)
      exact onOneLine_writeArgument target position

theorem newline_notMem_lineSeparator : '\n' ∉ lineSeparator := by
  decide

theorem onOneLine_writeBindings
    (target : Target)
    (bindings : List (String × Fragment)) :
    (writeBindings target bindings).OnOneLine := by
  induction bindings with
  | nil =>
      exact onOneLine_result ()
  | cons binding rest inductionHypothesis =>
      have first : (writeBinding target binding).OnOneLine := by
        apply (onOneLine_write (by decide)).andThen
        intro _
        exact onOneLine_writeFragment_andThen target .shell .quote _
      apply first.andThen
      intro _
      apply (onOneLine_write newline_notMem_lineSeparator).andThen
      intro _
      exact inductionHypothesis

mutual

theorem onOneLine_writeLine
    (target : Target) :
    ∀ line : Line, (writeLine target line).OnOneLine
  | .arguments arguments | .shellList arguments => by
      rw [writeLine]
      exact onOneLine_writeArguments target .shell arguments
  | .script script => by
      rw [writeLine]
      exact onOneLine_writeFragment_andThen target .shell .never script
  | .nested commands => by
      rw [writeLine]
      exact onOneLine_writeCommands target commands

theorem onOneLine_writeFurtherLines
    (target : Target) :
    ∀ lines : List Line, (writeFurtherLines target lines).OnOneLine
  | [] => onOneLine_result ()
  | line :: rest => by
      rw [writeFurtherLines]
      apply (onOneLine_write newline_notMem_lineSeparator).andThen
      intro _
      apply (onOneLine_writeLine target line).andThen
      intro _
      exact onOneLine_writeFurtherLines target rest

/-- However deep its lines are nested, a command stays on one line of the build file. -/
theorem onOneLine_writeCommands
    (target : Target) :
    ∀ commands : Commands, (writeCommands target commands).OnOneLine
  | .mk environment first rest => by
      have bindings := onOneLine_writeBindings target environment.entries
      have head := onOneLine_writeLine target first
      have others := onOneLine_writeFurtherLines target rest
      rw [writeCommands]
      by_cases envelope : needsEnvelope target (.mk environment first rest) = true
      · simp only [envelope, ↓reduceIte]
        apply (onOneLine_write (by decide)).andThen
        intro _
        apply bindings.andThen
        intro _
        apply head.andThen
        intro _
        exact others.andThen fun _ => onOneLine_write (by decide)
      · simp only [envelope, Bool.false_eq_true, ↓reduceIte]
        apply bindings.andThen
        intro _
        apply head.andThen
        intro _
        exact others.andThen fun _ => onOneLine_result ()

end

/-- A value stays on the line of its assignment. -/
theorem onOneLine_writeValue
    (target : Target)
    (position : Position)
    (value : Value) :
    (writeValue target position value).OnOneLine := by
  cases value with
  | text fragment =>
      exact onOneLine_writeFragment_andThen target position .never fragment
  | words arguments =>
      exact onOneLine_writeArguments target position arguments
  | sequence commands =>
      exact onOneLine_writeCommands target commands

end Ninja

end BuildGraph
