import BuildGraph.Proofs.CheckedWriting
import BuildGraph.Proofs.DependencyFiles
import BuildGraph.Proofs.FlatFragments

namespace BuildGraph

/-!
# Fragments that need no quotes

A writer tells whether what it wrote needs quotes, and a path is put between quotes by what
is told of its parts.  In a command this report is exact: nothing needs quotes just if every
leaf stands for safe text and none for a variable, and then the texts of the leaves are
written as they are.
-/

/--
A leaf in which nothing calls for quotes: plain text of safe characters, or a path with no
variable in front and no unsafe character.
-/
inductive Fragment.IsBare (pathVariables : PathVariables) : Fragment → Prop where
  | plain {text : String} :
      text.toList.all Shell.isSafe = true →
      IsBare pathVariables (.plain text)
  | path {path : Path} :
      path.IsBare pathVariables →
      IsBare pathVariables (.path path)

namespace Shell

/-- Safe text holds no character that calls for quotes. -/
theorem notMem_of_safe
    {character : Char}
    (notSafe : isSafe character = false)
    {word : List Char}
    (safe : word.all isSafe = true) :
    character ∉ word := by
  intro member
  have safeCharacter := List.all_eq_true.mp safe character member
  rw [notSafe] at safeCharacter
  contradiction

/-- Quotes stand at both ends of a text just where they were put, if it has none of its own. -/
theorem ends_wrap_iff
    {text : List Char}
    {needsQuotes : Bool}
    (quoteless : needsQuotes = false → '\'' ∉ text) :
    ((wrap text needsQuotes).head? = some '\'' ∧
        (wrap text needsQuotes).getLast? = some '\'') ↔
      needsQuotes = true := by
  cases needsQuotes with
  | true =>
      have closed : ('\'' :: (text ++ ['\''])).getLast? = some '\'' := by
        rw [← List.cons_append, List.getLast?_concat]
      simp [wrap, closed]
  | false =>
      have notFirst : text.head? ≠ some '\'' :=
        fun first => quoteless rfl (List.mem_of_head? first)
      simp [wrap, notFirst]

end Shell

namespace Ninja

/-! ## Leaves -/

/-- In a command safe text is written as it is. -/
theorem escapeText_quote_of_safe
    {word : List Char}
    (safe : word.all Shell.isSafe = true) :
    escapeText .shell (Shell.quote word) = word := by
  have noneSpecial : ∀ character ∈ word, isSpecial .shell character = false := by
    intro character member
    have notDollar : character ≠ '$' := by
      rintro rfl
      exact Shell.notMem_of_safe (by decide) safe member
    simp [isSpecial, notDollar]
  rw [(Shell.exactIf_quote word).eq_iff.mpr safe]
  exact escapeText_of_noneSpecial noneSpecial

section Leaves

variable
  {target : Target}
  {path : Path}

/-- A path needs quotes just if it is not bare. -/
theorem needsQuotes_writtenPath_eq_false_iff :
    (writtenPath target .shell path).needsQuotes = false ↔
      path.IsBare target.pathVariables := by
  unfold writtenPath writtenParts Path.IsBare
  by_cases headless : path.head target.pathVariables = []
  · have needed :
        (Shell.escape (Path.suffixAlone path.suffix).toList).2 =
          !path.suffix.toList.all Shell.isSafe := by
      rw [Shell.escape_eq, Path.all_isSafe_suffixAlone]
    simp only [Path.resolve_of_head_eq_nil headless, Written.concat_needsQuotes,
      List.map_singleton, List.any_cons, List.any_nil, Bool.or_false, writtenLeaf, quoteFor,
      needed, headless, true_and, Bool.not_eq_false']
  · -- The reference in front is literal text, and that always calls for quotes.
    obtain ⟨var, others, head⟩ := List.exists_cons_of_ne_nil headless
    simp [Path.resolve_of_head_ne_nil headless, Written.concat_needsQuotes, writtenLeaf, head]

/-- A bare path is written as the text that it stands for. -/
theorem text_writtenPath_of_isBare
    (bare : path.IsBare target.pathVariables) :
    (writtenPath target .shell path).text = (Path.suffixAlone path.suffix).toList := by
  rw [writtenPath_text_of_head_eq_nil bare.1]
  exact escapeText_quote_of_safe ((Path.all_isSafe_suffixAlone path.suffix).trans bare.2)

/-- A path that needs quotes is written between them, and any other has none in it. -/
theorem ends_writtenPath_iff :
    ((writtenPath target .shell path).text.head? = some '\'' ∧
        (writtenPath target .shell path).text.getLast? = some '\'') ↔
      (writtenPath target .shell path).needsQuotes = true := by
  have shape :
      (writtenPath target .shell path).text =
        Shell.wrap (writtenParts target .shell path).text
          (writtenPath target .shell path).needsQuotes := by
    simp [writtenPath]
  rw [shape]
  refine Shell.ends_wrap_iff fun needless member => ?_
  have bare := needsQuotes_writtenPath_eq_false_iff.mp needless
  rw [needless, Shell.wrap, if_neg Bool.false_ne_true, text_writtenPath_of_isBare bare] at shape
  rw [← shape] at member
  have safe := (Path.all_isSafe_suffixAlone path.suffix).trans bare.2
  exact Shell.notMem_of_safe Shell.isSafe_singleQuote safe member

end Leaves

/-- Of what is no concatenation nothing needs quotes just if it is a bare leaf. -/
theorem needsQuotes_writtenFragment_eq_false_iff
    {target : Target}
    {part : Fragment}
    (notConcat : ∀ pieces, part ≠ .concat pieces) :
    (writtenFragment target .shell .quote part).needsQuotes = false ↔
      part.IsBare target.pathVariables := by
  cases part with
  | leaf leaf =>
      rw [writtenFragment]
      cases leaf with
      | literal text | shellLiteral text =>
          exact iff_of_false (by simp [writtenLeaf]) nofun
      | plain text =>
          have needed :
              (writtenLeaf .shell .quote (.plain text)).needsQuotes =
                !text.toList.all Shell.isSafe := by
            show (Shell.escape text.toList).2 = _
            rw [Shell.escape_eq]
          rw [needed, Bool.not_eq_false']
          exact ⟨.plain, fun | .plain safe => safe⟩
  | path path =>
      rw [writtenFragment, needsQuotes_writtenPath_eq_false_iff]
      exact ⟨.path, fun | .path bare => bare⟩
  | concat pieces =>
      exact absurd rfl (notConcat pieces)

/-- A bare leaf is written as the text that it stands for, whatever the variables hold. -/
theorem text_writtenFragment_of_isBare
    {target : Target}
    {part : Fragment}
    (bare : part.IsBare target.pathVariables)
    (values : String → List Char) :
    (writtenFragment target .shell .quote part).text =
      part.value target.pathVariables values := by
  cases bare with
  | plain safe =>
      rw [writtenFragment, Fragment.value, Fragment.symbols, Symbol.flatMap_value_ofText]
      exact escapeText_quote_of_safe safe
  | path bare =>
      rw [writtenFragment, Fragment.value, Fragment.symbols,
        Path.symbols_of_head_eq_nil bare.1, Symbol.flatMap_value_ofText]
      exact text_writtenPath_of_isBare bare

/-! ## Leaves one after the other -/

theorem readsParts_writtenFragment
    (target : Target)
    (position : Position)
    (quoting : Quoting) :
    Fragment.ReadsParts
      (writtenFragment target position quoting)
      (writtenFragments target position quoting)
      Written.append
      .nothing where
  concat := fun _ => by
    rw [writtenFragment]
  nil := rfl
  cons := fun _ _ => by
    rw [writtenFragments]
  join_assoc := fun _ _ _ => by
    simp [Written.append, Bool.or_assoc]
  nothing_join := fun _ => rfl
  join_nothing := fun _ => by
    simp [Written.append, Written.nothing]

/-- What is written of a fragment is what is written of its leaves, one after the other. -/
theorem writtenFragment_eq_concat
    (target : Target)
    (position : Position)
    (quoting : Quoting)
    (fragment : Fragment) :
    writtenFragment target position quoting fragment =
      .concat (fragment.flatParts.map (writtenFragment target position quoting)) := by
  rw [← (readsParts_writtenFragment target position quoting).readAll_flatParts]
  induction fragment.flatParts with
  | nil =>
      rfl
  | cons part rest inductionHypothesis =>
      rw [writtenFragments, inductionHypothesis, List.map_cons, Written.concat]

section Whole

variable
  (target : Target)
  (fragment : Fragment)

/-- Of a fragment nothing needs quotes just if every leaf is bare. -/
theorem needsQuotes_eq_false_iff_forall_isBare :
    (writtenFragment target .shell .quote fragment).needsQuotes = false ↔
      ∀ part ∈ fragment.flatParts, part.IsBare target.pathVariables := by
  rw [writtenFragment_eq_concat, Written.concat_needsQuotes, List.any_map, List.any_eq_false]
  refine forall₂_congr fun part member => ?_
  rw [Function.comp_apply, Bool.not_eq_true]
  refine needsQuotes_writtenFragment_eq_false_iff ?_
  rintro pieces rfl
  exact fragment.concat_notMem_flatParts pieces member

/-- The text of a fragment is made of what stands for its leaves. -/
theorem text_writtenFragment_eq_flatMap
    {textOf : Fragment → List Char}
    (each :
      ∀ part ∈ fragment.flatParts,
        (writtenFragment target .shell .quote part).text = textOf part) :
    (writtenFragment target .shell .quote fragment).text =
      fragment.flatParts.flatMap textOf := by
  rw [writtenFragment_eq_concat, Written.concat_text, List.flatMap_map]
  exact List.flatMap_congr each

end Whole

/-! ## Fragments that are handed over -/

variable {State : Type}

/-- The leaves of an accepted fragment are accepted. -/
theorem check_of_mem_flatParts
    {fragment part : Fragment}
    (checked : fragment.check = .ok ())
    (member : part ∈ fragment.flatParts) :
    part.check = .ok () := by
  rw [← Fragment.readsParts_check.readAll_flatParts, Fragment.checkAll_eq_ok_iff] at checked
  exact checked part member

/-- A receiver takes a fragment to its end just if it is accepted and its text is taken. -/
theorem emitFragment_eq_ok_iff
    {receiver : Receiver State}
    {target : Target}
    {position : Position}
    {quoting : Quoting}
    {fragment : Fragment}
    {state later : State}
    {needsQuotes : Bool} :
    emitFragment receiver target position quoting fragment state = (.ok needsQuotes, later) ↔
      fragment.check = .ok () ∧
        receiver.put (writtenFragment target position quoting fragment).text state =
          (true, later) ∧
        (writtenFragment target position quoting fragment).needsQuotes = needsQuotes := by
  rw [emitFragment_eq_handOver, Receiver.handOver_eq_ok_iff]
  constructor
  · rintro ⟨taken, outcome⟩
    have checked : fragment.check = .ok () := by
      rw [fragment.check_eq_checkTexts]
      exact (haltsAt_writeFragment target position quoting fragment).checkTexts_eq_ok outcome
    rw [writeFragment_eq_output target position quoting checked] at taken outcome
    exact ⟨checked, taken, Except.ok.inj outcome⟩
  · rintro ⟨checked, taken, rfl⟩
    rw [writeFragment_eq_output target position quoting checked]
    exact ⟨taken, rfl⟩

/--
The report whether quotes are needed is exact.  A fragment that a receiver took to its end
needs none in a command just if all of its leaves are bare, and then their texts are written
as they are.  In any case its leaves are written as each of them is alone, and a path stands
between quotes just if the path alone needs them.
-/
theorem emitFragment_needsQuotes_iff
    {receiver : Receiver State}
    {target : Target}
    {fragment : Fragment}
    {state later : State}
    {needsQuotes : Bool}
    (ended :
      emitFragment receiver target .shell .quote fragment state = (.ok needsQuotes, later)) :
    let pathVariables := target.pathVariables
    let alone := fun part => emitFragment Receiver.buffer target .shell .quote part []
    ∃ text,
      receiver.put text state = (true, later) ∧
      (needsQuotes = false ↔ ∀ part ∈ fragment.flatParts, part.IsBare pathVariables) ∧
      (needsQuotes = false →
        ∀ values, text = fragment.flatParts.flatMap (Fragment.value pathVariables values)) ∧
      text = fragment.flatParts.flatMap (fun part => (alone part).2) ∧
      ∀ path, .path path ∈ fragment.flatParts →
        ∃ quoted own,
          alone (.path path) = (.ok quoted, own) ∧
          ((own.head? = some '\'' ∧ own.getLast? = some '\'') ↔ quoted = true) := by
  intro pathVariables alone
  obtain ⟨checked, taken, rfl⟩ := emitFragment_eq_ok_iff.mp ended
  have bareIff := needsQuotes_eq_false_iff_forall_isBare target fragment
  have ownText :
      ∀ part ∈ fragment.flatParts,
        alone part =
          (.ok (writtenFragment target .shell .quote part).needsQuotes,
            (writtenFragment target .shell .quote part).text) :=
    fun part member =>
      emitFragment_eq_ok_iff.mpr ⟨check_of_mem_flatParts checked member, rfl, rfl⟩
  refine ⟨_, taken, bareIff, ?_, ?_, ?_⟩
  · intro needless values
    refine text_writtenFragment_eq_flatMap target fragment fun part member => ?_
    exact text_writtenFragment_of_isBare (bareIff.mp needless part member) values
  · refine text_writtenFragment_eq_flatMap target fragment fun part member => ?_
    rw [ownText part member]
  · intro path member
    refine ⟨_, _, ownText _ member, ?_⟩
    rw [writtenFragment]
    exact ends_writtenPath_iff

/--
A path below the source tree needs quotes, for its variable as for its own quote, and so does
every fragment with that path in it; what stands beside it is written without.
-/
theorem emitFragment_needsQuotes_mixed :
    let target := Target.forPlatform .linux
    let emit := fun fragment =>
      emitFragment Receiver.buffer target .shell .quote fragment "cc ".toList
    let bare := Fragment.concat [.plain "-I", .concat [.path (.below .buildTree "")]]
    let source := Path.below .sourceTree "it's"
    let mixed := Fragment.concat [bare, .plain "/", .path source]
    emit bare = (.ok false, "cc -I.".toList) ∧
      (∀ part ∈ bare.flatParts, part.IsBare target.pathVariables) ∧
      emit mixed = (.ok true, "cc -I./'$\x7bsrcdir\x7d/it'\"'\"'s'".toList) ∧
      ¬ (∀ part ∈ mixed.flatParts, part.IsBare target.pathVariables) := by
  intro target emit bare source mixed
  have bareEnded : emit bare = (.ok false, "cc -I.".toList) :=
    emitFragment_eq_ok_iff.mpr ⟨by decide +kernel, by decide +kernel, by decide +kernel⟩
  have mixedEnded :
      emit mixed = (.ok true, "cc -I./'$\x7bsrcdir\x7d/it'\"'\"'s'".toList) :=
    emitFragment_eq_ok_iff.mpr ⟨by decide +kernel, by decide +kernel, by decide +kernel⟩
  obtain ⟨_, _, bareIff, _⟩ := emitFragment_needsQuotes_iff bareEnded
  obtain ⟨_, _, mixedIff, _⟩ := emitFragment_needsQuotes_iff mixedEnded
  exact ⟨bareEnded, bareIff.mp rfl, mixedEnded, fun allBare => nomatch mixedIff.mpr allBare⟩

end Ninja

end BuildGraph
