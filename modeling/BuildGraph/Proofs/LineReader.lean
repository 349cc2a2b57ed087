import BuildGraph.Proofs.Marks

namespace BuildGraph.Ninja

/-!
# Reading the first line of an edge

Behind `build` the line is cut into words at its bare spaces.  A bare colon ends the
outputs, the word behind it is the rule, and the words behind that are inputs.  A word that
is written as `|` or as `||` begins the implicit and the order-only inputs; it is never an
input itself.
-/

/-- What the first line of an edge says. -/
structure BuildLine where
  outputs : List (List Symbol)
  rule : List Symbol
  inputs : List (List Symbol)
  implicit : List (List Symbol)
  orderOnly : List (List Symbol)
  deriving Repr, DecidableEq

/-- Every word of a line, in order. -/
def BuildLine.words (line : BuildLine) : List (List Symbol) :=
  line.outputs ++ line.rule :: line.inputs ++ line.implicit ++ line.orderOnly

/-- The words of a line behind its rule. -/
def BuildLine.allInputs (line : BuildLine) : List (List Symbol) :=
  line.inputs ++ line.implicit ++ line.orderOnly

/-- The part of a line that a word behind the rule belongs to. -/
inductive Part where
  | inputs
  | implicit
  | orderOnly
  deriving Repr, DecidableEq

/-- The part that a word begins, if it is a separator. -/
def Part.begunBy? : List Mark → Option Part
  | [.bare '|'] => some .implicit
  | [.bare '|', .bare '|'] => some .orderOnly
  | _ => none

/-- The word that has been read when a space or the end of the line comes, if any. -/
def finishWord (begun : List Mark) : List (List Mark) :=
  if begun = [] then [] else [begun]

/-- The words between bare spaces, the first of which has begun already. -/
def wordsFrom (begun : List Mark) : List Mark → List (List Mark)
  | [] => finishWord begun
  | mark :: rest =>
      if mark = .bare ' ' then finishWord begun ++ wordsFrom [] rest
      else wordsFrom (begun ++ [mark]) rest

/-- Every word that is no separator, with the part that it belongs to. -/
def assignParts (current : Part) : List (List Mark) → List (Part × List Mark)
  | [] => []
  | word :: rest =>
      match Part.begunBy? word with
      | some part => assignParts part rest
      | none => (current, word) :: assignParts current rest

/-- What the words of one part stand for. -/
def wordsOfPart
    (part : Part)
    (words : List (Part × List Mark)) :
    List (List Symbol) :=
  (words.filter (·.1 = part)).map fun word => word.2.map Mark.symbol

/-- Read the marks of a line behind `build`. -/
def readStatement (marks : List Mark) : Option BuildLine :=
  match marks.dropWhile (· ≠ .bare ':') with
  | [] => none
  | _ :: behindColon =>
      match wordsFrom [] behindColon with
      | [] => none
      | rule :: words =>
          let outputs := wordsFrom [] (marks.takeWhile (· ≠ .bare ':'))
          let assigned := assignParts .inputs words
          some
            { outputs := outputs.map (·.map Mark.symbol)
              rule := rule.map Mark.symbol
              inputs := wordsOfPart .inputs assigned
              implicit := wordsOfPart .implicit assigned
              orderOnly := wordsOfPart .orderOnly assigned }

/-- Read the first line of an edge. -/
def readBuildLine : List Char → Option BuildLine
  | 'b' :: 'u' :: 'i' :: 'l' :: 'd' :: ' ' :: rest =>
      (readMarks rest).bind readStatement
  | _ => none

/-! ## What the reader never yields -/

/-- Between spaces there is never an empty word. -/
theorem ne_nil_of_mem_wordsFrom
    {begun marks word : List Mark}
    (member : word ∈ wordsFrom begun marks) :
    word ≠ [] := by
  have finished : ∀ {current : List Mark}, word ∈ finishWord current → word ≠ [] := by
    intro current inFinished
    unfold finishWord at inFinished
    split at inFinished
    · simp at inFinished
    · obtain rfl : word = current := by simpa using inFinished
      assumption
  induction marks generalizing begun with
  | nil =>
      exact finished member
  | cons mark rest inductionHypothesis =>
      rw [wordsFrom] at member
      split at member
      · rcases List.mem_append.mp member with inFinished | inRest
        · exact finished inFinished
        · exact inductionHypothesis inRest
      · exact inductionHypothesis member

/-- Words are made of the marks of the line. -/
theorem mem_of_mem_wordsFrom
    {begun marks word : List Mark}
    (member : word ∈ wordsFrom begun marks)
    {mark : Mark}
    (inWord : mark ∈ word) :
    mark ∈ begun ∨ mark ∈ marks := by
  have finished : ∀ {current : List Mark}, word ∈ finishWord current → mark ∈ current := by
    intro current inFinished
    unfold finishWord at inFinished
    split at inFinished
    · simp at inFinished
    · obtain rfl : word = current := by simpa using inFinished
      exact inWord
  induction marks generalizing begun with
  | nil =>
      exact .inl (finished member)
  | cons first rest inductionHypothesis =>
      rw [wordsFrom] at member
      split at member
      · rcases List.mem_append.mp member with inFinished | inRest
        · exact .inl (finished inFinished)
        · rcases inductionHypothesis inRest with inNothing | later
          · simp at inNothing
          · exact .inr (List.mem_cons_of_mem _ later)
      · rcases inductionHypothesis member with inBegun | later
        · rcases List.mem_append.mp inBegun with earlier | isFirst
          · exact .inl earlier
          · exact .inr (by simpa using .inl (List.mem_singleton.mp isFirst))
        · exact .inr (List.mem_cons_of_mem _ later)

/-- What belongs to a part is a word of the line and no separator. -/
theorem mem_assignParts
    {current : Part}
    {words : List (List Mark)}
    {entry : Part × List Mark}
    (member : entry ∈ assignParts current words) :
    entry.2 ∈ words ∧ Part.begunBy? entry.2 = none := by
  induction words generalizing current with
  | nil =>
      simp [assignParts] at member
  | cons word rest inductionHypothesis =>
      rw [assignParts] at member
      split at member
      · obtain ⟨inRest, noSeparator⟩ := inductionHypothesis member
        exact ⟨List.mem_cons_of_mem _ inRest, noSeparator⟩
      · rcases List.mem_cons.mp member with rfl | inRest
        · exact ⟨List.mem_cons_self, by assumption⟩
        · obtain ⟨inRest, noSeparator⟩ := inductionHypothesis inRest
          exact ⟨List.mem_cons_of_mem _ inRest, noSeparator⟩

/-- A separator stands for `|` or for `||`. -/
theorem pipes_of_begunBy?
    {word : List Mark}
    {part : Part}
    (begins : Part.begunBy? word = some part) :
    word.map Mark.symbol = [.plain '|'] ∨
      word.map Mark.symbol = [.plain '|', .plain '|'] := by
  unfold Part.begunBy? at begins
  split at begins
  · exact .inl rfl
  · exact .inr rfl
  · simp at begins

/-- A word stands for `|` or `||` only if it is written so. -/
theorem begunBy?_ne_none
    {word : List Mark}
    (readable : ∀ character, .escaped character ∈ word → isEscapable character = true)
    (pipes :
      word.map Mark.symbol = [.plain '|'] ∨
        word.map Mark.symbol = [.plain '|', .plain '|']) :
    Part.begunBy? word ≠ none := by
  have isBare : ∀ mark ∈ word, mark.symbol = .plain '|' → mark = .bare '|' := by
    intro mark member same
    cases mark with
    | bare character =>
        obtain rfl : character = '|' := by simpa [Mark.symbol] using same
        rfl
    | escaped character =>
        obtain rfl : character = '|' := by simpa [Mark.symbol] using same
        exact absurd (readable '|' member) (by decide)
    | reference name =>
        simp [Mark.symbol] at same
  rcases pipes with one | two
  · obtain ⟨mark, rfl, same⟩ := List.map_eq_singleton_iff.mp one
    rw [isBare mark List.mem_cons_self same]
    decide
  · obtain ⟨mark, others, rfl, same, rest⟩ := List.map_eq_cons_iff.mp two
    obtain ⟨last, rfl, sameLast⟩ := List.map_eq_singleton_iff.mp rest
    rw [isBare mark (by simp) same, isBare last (by simp) sameLast]
    decide

theorem mem_wordsOfPart
    {part : Part}
    {words : List (List Mark)}
    {word : List Symbol}
    (member : word ∈ wordsOfPart part (assignParts .inputs words)) :
    ∃ written ∈ words,
      written.map Mark.symbol = word ∧ Part.begunBy? written = none := by
  obtain ⟨entry, inPart, rfl⟩ := List.mem_map.mp member
  obtain ⟨inWords, noSeparator⟩ := mem_assignParts (List.mem_filter.mp inPart).1
  exact ⟨entry.2, inWords, rfl, noSeparator⟩

theorem readStatement_eq_some
    {marks : List Mark}
    {line : BuildLine}
    (read : readStatement marks = some line) :
    ∃ rule words,
      wordsFrom [] (marks.dropWhile (· ≠ .bare ':')).tail = rule :: words ∧
        line =
          { outputs :=
              (wordsFrom [] (marks.takeWhile (· ≠ .bare ':'))).map
                (·.map Mark.symbol)
            rule := rule.map Mark.symbol
            inputs := wordsOfPart .inputs (assignParts .inputs words)
            implicit := wordsOfPart .implicit (assignParts .inputs words)
            orderOnly := wordsOfPart .orderOnly (assignParts .inputs words) } := by
  unfold readStatement at read
  split at read
  · simp at read
  case h_2 colon behindColon split =>
    split at read
    · simp at read
    case h_2 rule words wordsRead =>
      refine ⟨rule, words, ?_, (Option.some.inj read).symm⟩
      rw [split]
      exact wordsRead

/-- A word behind the rule comes from a written word that is no separator. -/
theorem mem_allInputs_of_readStatement
    {marks : List Mark}
    {line : BuildLine}
    (read : readStatement marks = some line)
    {word : List Symbol}
    (member : word ∈ line.allInputs) :
    ∃ written : List Mark,
      written.map Mark.symbol = word ∧
        written ≠ [] ∧
        Part.begunBy? written = none ∧
        ∀ mark ∈ written, mark ∈ marks := by
  obtain ⟨rule, words, wordsRead, rfl⟩ := readStatement_eq_some read
  have inSomePart :
      ∃ part, word ∈ wordsOfPart part (assignParts .inputs words) := by
    simp only [BuildLine.allInputs, List.mem_append] at member
    rcases member with (inInputs | inImplicit) | inOrderOnly
    · exact ⟨.inputs, inInputs⟩
    · exact ⟨.implicit, inImplicit⟩
    · exact ⟨.orderOnly, inOrderOnly⟩
  obtain ⟨part, inPart⟩ := inSomePart
  obtain ⟨written, inWords, same, noSeparator⟩ := mem_wordsOfPart inPart
  have inLine :
      written ∈ wordsFrom [] (marks.dropWhile (· ≠ .bare ':')).tail := by
    rw [wordsRead]
    exact List.mem_cons_of_mem _ inWords
  refine ⟨written, same, ne_nil_of_mem_wordsFrom inLine, noSeparator, ?_⟩
  intro mark inWritten
  rcases mem_of_mem_wordsFrom inLine inWritten with inNothing | behindColon
  · simp at inNothing
  · exact (List.dropWhile_sublist _).mem (List.mem_of_mem_tail behindColon)

theorem readBuildLine_eq_some
    {text : List Char}
    {line : BuildLine}
    (read : readBuildLine text = some line) :
    ∃ rest marks,
      readMarks rest = some marks ∧ readStatement marks = some line := by
  unfold readBuildLine at read
  split at read
  case h_1 rest =>
    obtain ⟨marks, readRest, readLine⟩ := Option.bind_eq_some_iff.mp read
    exact ⟨rest, marks, readRest, readLine⟩
  case h_2 => simp at read

/-- The reader never yields an empty word, whatever it reads. -/
theorem ne_nil_of_readBuildLine
    {text : List Char}
    {line : BuildLine}
    (read : readBuildLine text = some line) :
    ∀ word ∈ line.words, word ≠ [] := by
  obtain ⟨_, marks, _, readLine⟩ := readBuildLine_eq_some read
  obtain ⟨rule, words, wordsRead, shape⟩ := readStatement_eq_some readLine
  intro word member
  rw [BuildLine.words, List.append_assoc, List.append_assoc, List.mem_append,
    List.cons_append, List.mem_cons, ← List.append_assoc] at member
  rcases member with inOutputs | isRule | inInputs
  · rw [shape] at inOutputs
    obtain ⟨written, inWords, rfl⟩ := List.mem_map.mp inOutputs
    simpa using ne_nil_of_mem_wordsFrom inWords
  · have inWords :
        rule ∈ wordsFrom [] (marks.dropWhile (· ≠ .bare ':')).tail := by
      rw [wordsRead]
      exact List.mem_cons_self
    rw [isRule, shape]
    simpa using ne_nil_of_mem_wordsFrom inWords
  · obtain ⟨written, rfl, notEmpty, _⟩ :=
      mem_allInputs_of_readStatement readLine inInputs
    simpa using notEmpty

/-- Behind the rule the reader never yields a separator, whatever it reads. -/
theorem noSeparator_of_readBuildLine
    {text : List Char}
    {line : BuildLine}
    (read : readBuildLine text = some line) :
    ∀ word ∈ line.allInputs,
      word ≠ [.plain '|'] ∧ word ≠ [.plain '|', .plain '|'] := by
  obtain ⟨rest, marks, readRest, readLine⟩ := readBuildLine_eq_some read
  intro word member
  obtain ⟨written, rfl, _, noSeparator, fromLine⟩ :=
    mem_allInputs_of_readStatement readLine member
  have readable :
      ∀ character, .escaped character ∈ written → isEscapable character = true := by
    intro character inWritten
    exact isEscapable_of_mem_readMarksIn readRest (fromLine _ inWritten)
  constructor
  · intro one
    exact begunBy?_ne_none readable (.inl one) noSeparator
  · intro two
    exact begunBy?_ne_none readable (.inr two) noSeparator

/-! ## What the reader makes of a proper line -/

/-- Words with a bare space in front of each. -/
def spaced (words : List (List Mark)) : List Mark :=
  words.flatMap (.bare ' ' :: ·)

/-- Words behind a separator, which is left out where there are no words. -/
def behindSeparator (separator : Word) (words : List Word) : List Word :=
  match words with
  | [] => []
  | words => separator :: words

@[simp] theorem behindSeparator_cons
    (separator word : Word)
    (rest : List Word) :
    behindSeparator separator (word :: rest) = separator :: word :: rest :=
  rfl

theorem wordsFrom_append
    {word : List Mark}
    (spaceless : .bare ' ' ∉ word)
    (begun rest : List Mark) :
    wordsFrom begun (word ++ rest) = wordsFrom (begun ++ word) rest := by
  induction word generalizing begun with
  | nil =>
      simp
  | cons mark others inductionHypothesis =>
      rw [List.mem_cons, not_or] at spaceless
      have notSpace : mark ≠ .bare ' ' := Ne.symm spaceless.1
      rw [List.cons_append, wordsFrom, if_neg notSpace,
        inductionHypothesis spaceless.2, List.append_assoc, List.singleton_append]

/-- Words with spaces between them are read back. -/
theorem wordsFrom_spaced
    {words : List (List Mark)}
    (proper : ∀ word ∈ words, word ≠ [] ∧ .bare ' ' ∉ word)
    (begun : List Mark) :
    wordsFrom begun (spaced words) = finishWord begun ++ words := by
  induction words generalizing begun with
  | nil =>
      simp [spaced, wordsFrom]
  | cons word rest inductionHypothesis =>
      rw [List.forall_mem_cons] at proper
      obtain ⟨⟨notEmpty, spaceless⟩, properRest⟩ := proper
      have shape : spaced (word :: rest) = .bare ' ' :: (word ++ spaced rest) := rfl
      rw [shape, wordsFrom, if_pos rfl, wordsFrom_append spaceless,
        inductionHypothesis properRest, List.nil_append, finishWord,
        finishWord, if_neg notEmpty, List.singleton_append]

theorem assignParts_append
    {current : Part}
    {words : List (List Mark)}
    (noSeparator : ∀ word ∈ words, Part.begunBy? word = none)
    (rest : List (List Mark)) :
    assignParts current (words ++ rest) =
      words.map (current, ·) ++ assignParts current rest := by
  induction words with
  | nil =>
      rfl
  | cons word others inductionHypothesis =>
      rw [List.forall_mem_cons] at noSeparator
      rw [List.cons_append, assignParts, noSeparator.1]
      simp only [inductionHypothesis noSeparator.2, List.map_cons, List.cons_append]

/-- Words behind a separator belong to the part that it begins. -/
theorem assignParts_behindSeparator
    {separator : List Mark}
    {part : Part}
    (begins : Part.begunBy? separator = some part)
    {words : List (List Mark)}
    (noSeparator : ∀ word ∈ words, Part.begunBy? word = none)
    (current : Part)
    (rest : List (List Mark)) :
    assignParts current (behindSeparator separator words ++ rest) =
      words.map (part, ·) ++
        assignParts (if words = [] then current else part) rest := by
  cases words with
  | nil =>
      rfl
  | cons word others =>
      rw [behindSeparator_cons, List.cons_append, assignParts, begins,
        if_neg (List.cons_ne_nil word others)]
      exact assignParts_append noSeparator rest

theorem wordsOfPart_append
    (part : Part)
    (words others : List (Part × List Mark)) :
    wordsOfPart part (words ++ others) =
      wordsOfPart part words ++ wordsOfPart part others := by
  simp [wordsOfPart]

/-- Words of one part are found in that part and in no other one. -/
theorem wordsOfPart_map
    (part owner : Part)
    (words : List (List Mark)) :
    wordsOfPart part (words.map (owner, ·)) =
      if owner = part then words.map (·.map Mark.symbol) else [] := by
  induction words with
  | nil =>
      simp [wordsOfPart]
  | cons word rest inductionHypothesis =>
      rw [wordsOfPart] at inductionHypothesis
      rw [List.map_cons, wordsOfPart, List.filter_cons]
      by_cases same : owner = part
      · simp only [same, ↓reduceIte, decide_true, List.map_cons]
          at inductionHypothesis ⊢
        rw [inductionHypothesis]
      · simp only [same, ↓reduceIte, decide_false, Bool.false_eq_true]
          at inductionHypothesis ⊢
        exact inductionHypothesis

/-- The marks of what a line is made of. -/
structure LineMarks where
  outputs : List (List Mark)
  rule : List Mark
  inputs : List (List Mark)
  implicit : List (List Mark)
  orderOnly : List (List Mark)

namespace LineMarks

/-- The words behind the colon, separators included. -/
def behindColon (line : LineMarks) : List (List Mark) :=
  line.rule :: line.inputs ++
    (behindSeparator [.bare '|'] line.implicit ++
      behindSeparator [.bare '|', .bare '|'] line.orderOnly)

/-- The inputs of all parts. -/
def allInputs (line : LineMarks) : List (List Mark) :=
  line.inputs ++ line.implicit ++ line.orderOnly

/-- What the marks stand for. -/
def meaning (line : LineMarks) : BuildLine where
  outputs := line.outputs.map (·.map Mark.symbol)
  rule := line.rule.map Mark.symbol
  inputs := line.inputs.map (·.map Mark.symbol)
  implicit := line.implicit.map (·.map Mark.symbol)
  orderOnly := line.orderOnly.map (·.map Mark.symbol)

/-- No word is empty or torn by a space, and no input looks like a separator. -/
structure Proper (line : LineMarks) : Prop where
  outputs : ∀ word ∈ line.outputs, word ≠ [] ∧ .bare ' ' ∉ word
  rule : line.rule ≠ [] ∧ .bare ' ' ∉ line.rule
  inputs : ∀ word ∈ line.allInputs, word ≠ [] ∧ .bare ' ' ∉ word
  noSeparator : ∀ word ∈ line.allInputs, Part.begunBy? word = none

/-- The words behind the rule are assigned to the parts that they came from. -/
theorem Proper.assignParts
    {line : LineMarks}
    (proper : line.Proper) :
    Ninja.assignParts .inputs
        (line.inputs ++
          (behindSeparator [.bare '|'] line.implicit ++
            behindSeparator [.bare '|', .bare '|'] line.orderOnly)) =
      line.inputs.map (.inputs, ·) ++
        (line.implicit.map (.implicit, ·) ++ line.orderOnly.map (.orderOnly, ·)) := by
  have noSeparator := proper.noSeparator
  rw [allInputs, List.forall_mem_append, List.forall_mem_append] at noSeparator
  obtain ⟨⟨inInputs, inImplicit⟩, inOrderOnly⟩ := noSeparator
  have lastPart :
      ∀ current,
        Ninja.assignParts current
            (behindSeparator [.bare '|', .bare '|'] line.orderOnly) =
          line.orderOnly.map (.orderOnly, ·) := by
    intro current
    have begins : Part.begunBy? [.bare '|', .bare '|'] = some .orderOnly := rfl
    have behind := assignParts_behindSeparator begins inOrderOnly current []
    simpa [Ninja.assignParts] using behind
  rw [assignParts_append inInputs, assignParts_behindSeparator rfl inImplicit,
    lastPart]

/-- Behind the colon the words of a proper line are read back. -/
theorem Proper.wordsFrom_behindColon
    {line : LineMarks}
    (proper : line.Proper) :
    wordsFrom [] (spaced line.behindColon) = line.behindColon := by
  have inputs := proper.inputs
  rw [allInputs, List.forall_mem_append, List.forall_mem_append] at inputs
  obtain ⟨⟨inInputs, inImplicit⟩, inOrderOnly⟩ := inputs
  have behind :
      ∀ {separator : List Mark} {words : List (List Mark)},
        (separator ≠ [] ∧ .bare ' ' ∉ separator) →
        (∀ word ∈ words, word ≠ [] ∧ .bare ' ' ∉ word) →
        ∀ word ∈ behindSeparator separator words, word ≠ [] ∧ .bare ' ' ∉ word := by
    intro separator words properSeparator properWords
    cases words with
    | nil =>
        exact properWords
    | cons word others =>
        exact List.forall_mem_cons.mpr ⟨properSeparator, properWords⟩
  have properWords :
      ∀ word ∈ line.behindColon, word ≠ [] ∧ .bare ' ' ∉ word := by
    rw [behindColon, List.forall_mem_append, List.forall_mem_cons,
      List.forall_mem_append]
    exact ⟨⟨proper.rule, inInputs⟩, behind (by decide) inImplicit,
      behind (by decide) inOrderOnly⟩
  rw [wordsFrom_spaced properWords, finishWord, if_pos rfl, List.nil_append]

/-- A proper line is read as what its marks stand for. -/
theorem Proper.readStatement
    {line : LineMarks}
    (proper : line.Proper)
    {outputs : List Mark}
    (spacedOutputs : .bare ' ' :: outputs = spaced line.outputs)
    (colonless : .bare ':' ∉ outputs) :
    Ninja.readStatement (outputs ++ .bare ':' :: spaced line.behindColon) =
      some line.meaning := by
  have notColon : ∀ mark ∈ outputs, decide (mark ≠ .bare ':') = true := by
    intro mark member
    have different : mark ≠ .bare ':' := by
      rintro rfl
      exact colonless member
    simpa using different
  have behind :
      (outputs ++ .bare ':' :: spaced line.behindColon).dropWhile
          (· ≠ .bare ':') =
        .bare ':' :: spaced line.behindColon := by
    rw [List.dropWhile_append_of_pos notColon]
    simp
  have before :
      (outputs ++ .bare ':' :: spaced line.behindColon).takeWhile
          (· ≠ .bare ':') =
        outputs := by
    rw [List.takeWhile_append_of_pos notColon]
    simp
  -- The space that stands in front of the first output changes nothing.
  have outputWords : wordsFrom [] outputs = line.outputs := by
    have behindSpace : wordsFrom [] (.bare ' ' :: outputs) = wordsFrom [] outputs := by
      simp [wordsFrom, finishWord]
    rw [← behindSpace, spacedOutputs, wordsFrom_spaced proper.outputs, finishWord,
      if_pos rfl, List.nil_append]
  have inputWords := proper.wordsFrom_behindColon
  unfold Ninja.readStatement
  rw [behind, before, outputWords]
  simp only [inputWords]
  simp only [behindColon, List.cons_append, proper.assignParts, meaning]
  simp [wordsOfPart_append, wordsOfPart_map]

end LineMarks

end BuildGraph.Ninja
