import BuildGraph.Proofs.BuildLine
import BuildGraph.Proofs.Consistency

namespace BuildGraph.Ninja

/-!
# Outputs that are written alike

A file keeps outputs apart as fragments, and different fragments may be written as the same
text.  What the backend reads of a text determines the text.  So two outputs are written
alike just if the same marks are read of them, once their paths are resolved.
-/

/-! ## A text is determined by its marks -/

/-- How a mark is written. -/
def Mark.text : Mark → List Char
  | .bare character => [character]
  | .escaped character => ['$', character]
  | .reference name => '$' :: '\x7b' :: (name.toList ++ ['\x7d'])

/-- The beginning of a mark that a reader has seen in a mode. -/
def MarkMode.begun : MarkMode → List Char
  | .text => []
  | .afterDollar => ['$']
  | .inName read => '$' :: '\x7b' :: read

/-- Marks are written as the text that they were read of. -/
theorem flatMap_text_of_readMarksIn
    {mode : MarkMode}
    {text : List Char}
    {marks : List Mark}
    (read : readMarksIn mode text = some marks) :
    marks.flatMap Mark.text = mode.begun ++ text := by
  -- What a mode has seen is the beginning of the first mark that is still to come.
  induction text generalizing mode marks with
  | nil =>
      cases mode with
      | text =>
          obtain rfl : [] = marks := by simpa [readMarksIn] using read
          rfl
      | afterDollar | inName =>
          simp [readMarksIn] at read
  | cons character rest inductionHypothesis =>
      cases mode with
      | text =>
          rw [readMarksIn] at read
          split at read
          case isTrue isDollar =>
            rw [inductionHypothesis read, isDollar]
            rfl
          case isFalse =>
            obtain ⟨others, readOthers, rfl⟩ := Option.map_eq_some_iff.mp read
            rw [List.flatMap_cons, inductionHypothesis readOthers]
            rfl
      | afterDollar =>
          rw [readMarksIn] at read
          split at read
          case isTrue isBrace =>
            rw [inductionHypothesis read, isBrace]
            rfl
          case isFalse =>
            split at read
            case isTrue =>
              obtain ⟨others, readOthers, rfl⟩ := Option.map_eq_some_iff.mp read
              rw [List.flatMap_cons, inductionHypothesis readOthers]
              rfl
            case isFalse =>
              contradiction
      | inName name =>
          rw [readMarksIn] at read
          split at read
          case isTrue isBrace =>
            obtain ⟨others, readOthers, rfl⟩ := Option.map_eq_some_iff.mp read
            rw [List.flatMap_cons, inductionHypothesis readOthers, isBrace]
            simp [Mark.text, MarkMode.begun]
          case isFalse =>
            rw [inductionHypothesis read]
            simp [MarkMode.begun]

/-- Texts are the same just if the same marks are read of them. -/
theorem eq_iff_of_readMarks
    {first second : List Char}
    {firstMarks secondMarks : List Mark}
    (readFirst : readMarks first = some firstMarks)
    (readSecond : readMarks second = some secondMarks) :
    first = second ↔ firstMarks = secondMarks := by
  constructor
  · rintro rfl
    exact Option.some.inj (readFirst.symm.trans readSecond)
  · rintro rfl
    have writtenFirst := flatMap_text_of_readMarksIn readFirst
    have writtenSecond := flatMap_text_of_readMarksIn readSecond
    exact writtenFirst.symm.trans writtenSecond

/-! ## What is read of a fragment -/

/--
The marks of a leaf outside of shell values.  Literal text is read as it stands, and nothing
is read of it when a dollar sign in it is misplaced.
-/
def leafMarks? (position : Position) : Leaf → Option (List Mark)
  | .literal text => readMarks text.toList
  | .shellLiteral text | .plain text =>
      some ((Symbol.ofText text.toList).map (markOf position))

mutual

/-- The marks of a fragment outside of shell values. -/
def fragmentMarks?
    (pathVariables : PathVariables)
    (position : Position) :
    Fragment →
    Option (List Mark)
  | .leaf leaf => leafMarks? position leaf
  | .path path => some ((path.symbols pathVariables).map (markOf position))
  | .concat parts => fragmentsMarks? pathVariables position parts

/-- The marks of fragments one after the other. -/
def fragmentsMarks?
    (pathVariables : PathVariables)
    (position : Position) :
    List Fragment →
    Option (List Mark)
  | [] => some []
  | fragment :: rest =>
      (fragmentMarks? pathVariables position fragment).bind fun first =>
        (fragmentsMarks? pathVariables position rest).map (first ++ ·)

end

mutual

/-- The marks of an ordinary fragment are those of what it stands for. -/
theorem fragmentMarks?_of_ordinary
    (pathVariables : PathVariables)
    (position : Position) :
    ∀ {fragment : Fragment},
      fragment.isOrdinary = true →
      fragmentMarks? pathVariables position fragment =
        some ((fragment.symbols pathVariables).map (markOf position))
  | .leaf (.plain text), _ => rfl
  | .path path, _ => rfl
  | .concat parts, ordinary => by
      rw [Fragment.isOrdinary] at ordinary
      rw [fragmentMarks?, Fragment.symbols]
      exact fragmentsMarks?_of_ordinary pathVariables position ordinary

theorem fragmentsMarks?_of_ordinary
    (pathVariables : PathVariables)
    (position : Position) :
    ∀ {fragments : List Fragment},
      Fragment.areOrdinary fragments = true →
      fragmentsMarks? pathVariables position fragments =
        some ((Fragment.symbolsOf pathVariables fragments).map (markOf position))
  | [], _ => rfl
  | fragment :: rest, ordinary => by
      rw [Fragment.areOrdinary, Bool.and_eq_true] at ordinary
      have first := fragmentMarks?_of_ordinary pathVariables position ordinary.1
      have others := fragmentsMarks?_of_ordinary pathVariables position ordinary.2
      rw [fragmentsMarks?, first, others, Fragment.symbolsOf, List.map_append]
      rfl

end

/-- Outside of shell values a leaf is written as its marks. -/
theorem readMarks_writtenLeaf
    {position : Position}
    (notShell : position ≠ .shell)
    (quoting : Quoting)
    {leaf : Leaf}
    {marks : List Mark}
    (stands : leafMarks? position leaf = some marks) :
    readMarks (writtenLeaf position quoting leaf).text = some marks := by
  cases leaf with
  | literal text =>
      exact stands
  | shellLiteral text =>
      obtain rfl := Option.some.inj stands
      exact readMarks_escapeText position text.toList
  | plain text =>
      obtain rfl := Option.some.inj stands
      rw [writtenLeaf, quoteFor_of_notShell notShell]
      exact readMarks_escapeText position text.toList

mutual

/-- Outside of shell values a fragment is written as its marks. -/
theorem readMarks_writtenFragment
    {position : Position}
    (notShell : position ≠ .shell)
    (target : Target)
    (quoting : Quoting) :
    ∀ {fragment : Fragment} {marks : List Mark},
      fragment.check = .ok () →
      fragmentMarks? target.pathVariables position fragment = some marks →
      readMarks (writtenFragment target position quoting fragment).text = some marks
  | .leaf leaf, marks, _, stands =>
      readMarks_writtenLeaf notShell quoting stands
  | .path path, marks, checked, stands => by
      rw [Fragment.check] at checked
      obtain rfl := Option.some.inj stands
      exact (writes_writtenPath notShell target checked).marks
  | .concat parts, marks, checked, stands => by
      rw [Fragment.check] at checked
      rw [fragmentMarks?] at stands
      exact readMarks_writtenFragments notShell target quoting checked stands

theorem readMarks_writtenFragments
    {position : Position}
    (notShell : position ≠ .shell)
    (target : Target)
    (quoting : Quoting) :
    ∀ {fragments : List Fragment} {marks : List Mark},
      Fragment.checkAll fragments = .ok () →
      fragmentsMarks? target.pathVariables position fragments = some marks →
      readMarks (writtenFragments target position quoting fragments).text = some marks
  | [], marks, _, stands => stands
  | fragment :: rest, marks, checked, stands => by
      rw [Fragment.checkAll_eq_ok_iff, List.forall_mem_cons,
        ← Fragment.checkAll_eq_ok_iff] at checked
      rw [fragmentsMarks?] at stands
      obtain ⟨first, firstStands, stands⟩ := Option.bind_eq_some_iff.mp stands
      obtain ⟨others, othersStand, rfl⟩ := Option.map_eq_some_iff.mp stands
      exact readMarks_append_of_eq
        (readMarks_writtenFragment notShell target quoting checked.1 firstStands)
        (readMarks_writtenFragments notShell target quoting checked.2 othersStand)

end

/-! ## The outputs of a file -/

/--
Every output of a reachable file is written, and no fragment is built twice.  Two of the
outputs are written as the same text just if they have the same marks.  Ordinary outputs have
the marks of what they stand for, and the others have some unless literal text in them is
unreadable on its own.
-/
theorem outputs_writtenAlike_iff
    {file : BuildFile}
    (reachable : file.Reachable)
    (target : Target)
    (quoting : Quoting) :
    (∀ output ∈ file.outputs,
        (∃ needsQuotes,
            (writeFragment target .output quoting output).outcome = .ok needsQuotes) ∧
          (output.isOrdinary = true →
            fragmentMarks? target.pathVariables .output output =
              some ((output.symbols target.pathVariables).map (markOf .output)))) ∧
      file.outputs.Pairwise fun first second =>
        first ≠ second ∧
          ∀ firstMarks secondMarks,
            fragmentMarks? target.pathVariables .output first = some firstMarks →
            fragmentMarks? target.pathVariables .output second = some secondMarks →
            ((writeFragment target .output quoting first).text =
                (writeFragment target .output quoting second).text ↔
              firstMarks = secondMarks) := by
  have checked : ∀ output ∈ file.outputs, output.check = .ok () := by
    intro output member
    obtain ⟨edge, inFile, inEdge⟩ := List.mem_flatMap.mp member
    exact (reachable.onSingleLines.edges edge inFile).outputs output inEdge
  have written :
      ∀ output ∈ file.outputs,
        writeFragment target .output quoting output =
          (writtenFragment target .output quoting output).output :=
    fun output member =>
      writeFragment_eq_output target .output quoting (checked output member)
  have notShell : Position.output ≠ .shell := by
    decide
  refine ⟨?_, ?_⟩
  · intro output member
    rw [written output member]
    exact ⟨⟨_, rfl⟩, fragmentMarks?_of_ordinary target.pathVariables .output⟩
  · refine reachable.consistent.graph.outputsDistinct.imp_of_mem ?_
    intro first second inFirst inSecond different
    refine ⟨different, fun firstMarks secondMarks firstStands secondStands => ?_⟩
    rw [written first inFirst, written second inSecond]
    exact eq_iff_of_readMarks
      (readMarks_writtenFragment notShell target quoting (checked first inFirst)
        firstStands)
      (readMarks_writtenFragment notShell target quoting (checked second inSecond)
        secondStands)

/--
A source file and the same name put together from a reference and plain text are written
alike; an escaped colon keeps a name apart from literal text with a bare one.
-/
theorem outputs_writtenAlike_references :
    let build := fun output => Operation.declareEdge { outputs := [output], rule := "phony" }
    let path := Fragment.path (.below .sourceTree "a b")
    let pieces := Fragment.concat [(Variable.ofString "srcdir").use, .plain "/a b"]
    let colon := Fragment.plain "a:b"
    let bareColon := Fragment.literal "a:b"
    let target := Target.forPlatform .linux
    let file :=
      BuildFile.run [build path, build pieces, build colon, build bareColon]
        (.empty "build.bfg" target)
    let text := fun output => (writeFragment target .output .quote output).text
    file.Reachable ∧
      file.outputs = [path, pieces, colon, bareColon] ∧
      text path = text pieces ∧
      text colon ≠ text bareColon := by
  intro build path pieces colon bareColon target file text
  have reachable : file.Reachable := ⟨_, _, _, rfl⟩
  have outputs : file.outputs = [path, pieces, colon, bareColon] := by
    decide +kernel
  have apart := (outputs_writtenAlike_iff reachable target .quote).2
  rw [outputs, List.pairwise_cons] at apart
  obtain ⟨fromPath, apart⟩ := apart
  rw [List.pairwise_cons, List.pairwise_cons] at apart
  obtain ⟨_, fromColon, _⟩ := apart
  have piecesAlike := (fromPath pieces List.mem_cons_self).2
  have colonsApart := (fromColon bareColon List.mem_cons_self).2
  refine ⟨reachable, outputs, ?_, ?_⟩
  · exact (piecesAlike _ _ rfl rfl).mpr (by decide +kernel)
  · exact fun same => absurd ((colonsApart _ _ rfl rfl).mp same) (by decide +kernel)

/--
A path below the build tree and the plain text of the same name are different fragments.  A
file builds both, and both are written as the same text.
-/
theorem outputs_writtenAlike_buildTree :
    let build := fun output => Operation.declareEdge { outputs := [output], rule := "phony" }
    let path := Fragment.path (.ofComponents .buildTree ["obj", "a.o"])
    let name := Fragment.plain "obj/a.o"
    let target := Target.forPlatform .linux
    let file := BuildFile.run [build path, build name] (.empty "build.bfg" target)
    file.Reachable ∧
      file.outputs = [path, name] ∧
      (writeFragment target .output .quote path).text =
        (writeFragment target .output .quote name).text := by
  intro build path name target file
  exact ⟨⟨_, _, _, rfl⟩, by decide +kernel, by decide +kernel⟩

end BuildGraph.Ninja
