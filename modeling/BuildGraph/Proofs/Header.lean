import BuildGraph.Proofs.Blocks

namespace BuildGraph

/-!
# The comment in front of a file

A generated text opens with a comment that names what the file was made from, and an empty
line ends it.  The source is put there as it is.  So the comment is whole just if the source
stays on one line, and further lines of the source are read for what they are.
-/

namespace Text

/-- The lines of a text in front of its first empty line. -/
def firstParagraph (text : List Char) : List (List Char) :=
  (linesOf text).takeWhile (· ≠ [])

/-- What follows the first empty line of a text. -/
def behindFirstParagraph (text : List Char) : List Char :=
  ((linesWithBreaks text).dropWhile (· ≠ ['\n'])).tail.flatten

/-- A line of a text is read in front of the lines behind it. -/
theorem linesOf_append
    {line : List Char}
    (single : '\n' ∉ line)
    (rest : List Char) :
    linesOf (line ++ '\n' :: rest) = line :: linesOf rest := by
  rw [linesOf, linesWithBreaks_append single, List.map_cons,
    takeWhile_append_of_notMem single, linesOf]

theorem firstParagraph_append
    {line : List Char}
    (single : '\n' ∉ line)
    (rest : List Char) :
    firstParagraph (line ++ '\n' :: rest) =
      if line = [] then [] else line :: firstParagraph rest := by
  rw [firstParagraph, linesOf_append single, List.takeWhile_cons]
  by_cases isEmpty : line = [] <;> simp [isEmpty, firstParagraph]

theorem firstParagraph_unlines
    {lines : List (List Char)}
    (filled : ∀ line ∈ lines, '\n' ∉ line ∧ line ≠ [])
    (rest : List Char) :
    firstParagraph (unlines lines ++ '\n' :: rest) = lines := by
  induction lines with
  | nil =>
      rfl
  | cons line others inductionHypothesis =>
      obtain ⟨⟨single, notEmpty⟩, filledOthers⟩ := List.forall_mem_cons.mp filled
      rw [unlines_cons, List.append_assoc, List.cons_append, firstParagraph_append single,
        if_neg notEmpty]
      exact congrArg (line :: ·) (inductionHypothesis filledOthers)

theorem behindFirstParagraph_append
    {line : List Char}
    (single : '\n' ∉ line)
    (rest : List Char) :
    behindFirstParagraph (line ++ '\n' :: rest) =
      if line = [] then rest else behindFirstParagraph rest := by
  rw [behindFirstParagraph, linesWithBreaks_append single, List.dropWhile_cons]
  by_cases isEmpty : line = []
  · simp [isEmpty, flatten_linesWithBreaks]
  · simp [isEmpty, behindFirstParagraph]

end Text

namespace Ninja

/-- Comment lines up to the first empty line of a text, and just this body behind it. -/
def OpensWithComment (text body : List Char) : Prop :=
  (∀ line ∈ Text.firstParagraph text, line.head? = some '#') ∧
    Text.behindFirstParagraph text = body

/-- An empty line ends the comment, whatever follows it. -/
theorem opensWithComment_blank_iff
    {rest body : List Char} :
    OpensWithComment ('\n' :: rest) body ↔ rest = body := by
  have noLines := Text.firstParagraph_append (List.not_mem_nil (a := '\n')) rest
  have behind := Text.behindFirstParagraph_append (List.not_mem_nil (a := '\n')) rest
  rw [List.nil_append, if_pos rfl] at noLines behind
  simp [OpensWithComment, noLines, behind]

/-- A line in front of a text belongs to the comment if it is one. -/
theorem opensWithComment_append_iff
    {line : List Char}
    (single : '\n' ∉ line)
    (notEmpty : line ≠ [])
    {rest body : List Char} :
    OpensWithComment (line ++ '\n' :: rest) body ↔
      line.head? = some '#' ∧ OpensWithComment rest body := by
  rw [OpensWithComment, Text.firstParagraph_append single, if_neg notEmpty,
    Text.behindFirstParagraph_append single, if_neg notEmpty, List.forall_mem_cons,
    and_assoc, OpensWithComment]

/-- Lines with an empty line behind them are a comment if each of them is one. -/
theorem opensWithComment_unlines_iff
    {lines : List (List Char)}
    (single : ∀ line ∈ lines, '\n' ∉ line)
    (body : List Char) :
    OpensWithComment (Text.unlines lines ++ '\n' :: body) body ↔
      ∀ line ∈ lines, line.head? = some '#' := by
  induction lines with
  | nil =>
      simp [Text.unlines, opensWithComment_blank_iff]
  | cons line rest inductionHypothesis =>
      rw [List.forall_mem_cons] at single
      rw [Text.unlines_cons, List.append_assoc, List.cons_append, List.forall_mem_cons,
        ← inductionHypothesis single.2]
      by_cases isEmpty : line = []
      · -- Behind the empty line there is more than the body.
        have longer : Text.unlines rest ++ '\n' :: body ≠ body := by
          intro same
          have lengths := congrArg List.length same
          rw [List.length_append, List.length_cons] at lengths
          omega
        simp [isEmpty, opensWithComment_blank_iff, longer]
      · exact opensWithComment_append_iff single.1 isEmpty

/-- The first line of every header. -/
def warningLine : String :=
  "# Do not edit this file! It was automatically generated by ninja-synth."

/-- The second line of every header. -/
def adviceLine : String :=
  "# Instead, you should edit the source file that created this:"

theorem warningLine_filled :
    '\n' ∉ warningLine.toList ∧ warningLine.toList ≠ [] := by
  decide +kernel

theorem adviceLine_filled :
    '\n' ∉ adviceLine.toList ∧ adviceLine.toList ≠ [] := by
  decide +kernel

/-- A header consists of two fixed lines, the lines of the source and an empty line. -/
theorem toList_header
    {source : String}
    {first : List Char}
    {further : List (List Char)}
    (sourceLines : Text.unlines (first :: further) = source.toList ++ ['\n']) :
    (header source).toList =
      Text.unlines
          (warningLine.toList :: adviceLine.toList :: ("# ".toList ++ first) :: further) ++
        ['\n'] := by
  have shape :
      header source =
        warningLine ++ "\n" ++ (adviceLine ++ "\n") ++ "# " ++ source ++ "\n\n" := by
    rfl
  have lines :
      source.toList ++ "\n\n".toList =
        first ++ '\n' :: (Text.unlines further ++ ['\n']) := by
    have ends : "\n\n".toList = ['\n'] ++ ['\n'] := rfl
    rw [ends, ← List.append_assoc, ← sourceLines]
    simp [Text.unlines]
  rw [shape]
  simp only [String.toList_append, List.append_assoc, lines]
  simp [Text.unlines]

section SourceLines

variable
  {source : String}
  {first : List Char}
  {further : List (List Char)}
  (single : ∀ line ∈ first :: further, '\n' ∉ line)
  (sourceLines : Text.unlines (first :: further) = source.toList ++ ['\n'])
  (body : List Char)

include single sourceLines

theorem opensWithComment_header_iff :
    OpensWithComment ((header source).toList ++ body) body ↔
      ∀ line ∈ further, line.head? = some '#' := by
  rw [List.forall_mem_cons] at single
  have whole :
      ∀ line ∈
          warningLine.toList :: adviceLine.toList :: ("# ".toList ++ first) :: further,
        '\n' ∉ line := by
    simp only [List.forall_mem_cons]
    exact ⟨warningLine_filled.1, adviceLine_filled.1, by simpa using single.1, single.2⟩
  rw [toList_header sourceLines, List.append_assoc, List.singleton_append,
    opensWithComment_unlines_iff whole]
  simp [warningLine, adviceLine]

/-- The third line of a file names the first line of its source. -/
theorem thirdLine_header :
    (Text.firstParagraph ((header source).toList ++ body))[2]? =
      some ("# ".toList ++ first) := by
  have thirdSingle : '\n' ∉ "# ".toList ++ first := by
    simpa using single first List.mem_cons_self
  have shape :
      (header source).toList ++ body =
        warningLine.toList ++ '\n' ::
          (adviceLine.toList ++ '\n' ::
            ("# ".toList ++ first ++ '\n' ::
              (Text.unlines further ++ '\n' :: body))) := by
    rw [toList_header sourceLines]
    simp [Text.unlines]
  rw [shape, Text.firstParagraph_append warningLine_filled.1, if_neg warningLine_filled.2,
    Text.firstParagraph_append adviceLine_filled.1, if_neg adviceLine_filled.2,
    Text.firstParagraph_append thirdSingle, if_neg (by simp)]
  rfl

end SourceLines

/--
A file fails for every source with the same error, or is generated for every source with the
same body behind the header.  The header is comment lines up to the first empty line, with
nothing but the body behind it, just if every further line of the source is a comment of
itself.  Its third line names the whole source besides just if the source is a single line.
-/
theorem generate_header_iff
    (file : BuildFile) :
    (∃ error, ∀ source, generate { file with source } = .error error) ∨
      ∃ body, ∀ source, ∃ text,
        generate { file with source } = .ok text ∧
          text.toList = (header source).toList ++ body ∧
          (OpensWithComment text.toList body ↔
            ∀ line ∈ (Text.linesOf (source.toList ++ ['\n'])).tail,
              line.head? = some '#') ∧
          (OpensWithComment text.toList body ∧
              (Text.firstParagraph text.toList)[2]? =
                some ("# ".toList ++ source.toList) ↔
            '\n' ∉ source.toList) := by
  have written (source : String) :
      generate { file with source } =
        (writeBody file).outcome.map fun _ =>
          String.ofList ((header source).toList ++ (writeBody file).text) :=
    rfl
  cases ended : (writeBody file).outcome with
  | error error =>
      left
      refine ⟨error, fun source => ?_⟩
      rw [written, ended]
      rfl
  | ok value =>
      right
      refine ⟨(writeBody file).text, fun source => ?_⟩
      obtain ⟨first, further, single, sourceLines⟩ := Text.exists_unlines source.toList
      have read : Text.linesOf (source.toList ++ ['\n']) = first :: further := by
        rw [← sourceLines, Text.linesOf_unlines single]
      have comment :=
        opensWithComment_header_iff single sourceLines (writeBody file).text
      have third := thirdLine_header single sourceLines (writeBody file).text
      refine ⟨_, by rw [written, ended]; rfl, String.toList_ofList, ?_, ?_⟩
      · rw [String.toList_ofList, comment, read, List.tail_cons]
      · rw [String.toList_ofList, comment, third]
        constructor
        · rintro ⟨_, named⟩
          obtain rfl : first = source.toList :=
            List.append_cancel_left (Option.some.inj named)
          exact single _ List.mem_cons_self
        · intro singleLine
          have alone := Text.linesOf_unlines (List.forall_mem_singleton.mpr singleLine)
          rw [Text.unlines_singleton, read] at alone
          obtain ⟨rfl, rfl⟩ := List.cons.inj alone
          exact ⟨by simp, rfl⟩

/--
A second line of the source stands in the file as it is.  It belongs to no comment, and the
backend reads it as the beginning of a rule.
-/
theorem generate_header_statement :
    let file := BuildFile.empty "build.bfg\nrule x" (.forPlatform .linux)
    ∃ text,
      generate file = .ok text ∧
        Text.firstParagraph text.toList =
          [warningLine, adviceLine, "# build.bfg", "rule x"].map String.toList ∧
        ¬ ((∀ line ∈ Text.firstParagraph text.toList, line.head? = some '#') ∧
          (Text.firstParagraph text.toList)[2]? =
            some ("# ".toList ++ file.source.toList)) := by
  intro file
  have ended : (writeFile file).outcome = .ok () := by
    decide +kernel
  have sourceLines :
      Text.unlines ["build.bfg".toList, "rule x".toList] = file.source.toList ++ ['\n'] := by
    decide +kernel
  have written : (writeFile file).text = (header file.source).toList ++ [] := by
    rfl
  have lines :
      Text.firstParagraph (String.ofList (writeFile file).text).toList =
        [warningLine, adviceLine, "# build.bfg", "rule x"].map String.toList := by
    rw [String.toList_ofList, written, List.append_nil, toList_header sourceLines]
    refine Text.firstParagraph_unlines ?_ []
    simp only [List.forall_mem_cons]
    exact ⟨warningLine_filled, adviceLine_filled, ⟨by decide, by decide⟩,
      ⟨by decide, by decide⟩, fun _ member => nomatch member⟩
  refine ⟨_, generate_of_ended ended, lines, ?_⟩
  rw [lines]
  decide +kernel

end Ninja

end BuildGraph
