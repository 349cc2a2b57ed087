import BuildGraph.Proofs.CollapsedCommands
import BuildGraph.Proofs.CommandWords

namespace BuildGraph

/-!
# How dependency files are named

The backend opens a dependency file itself, and no shell sees its name.  Plain text in the
name is written without quotes.  A path is not: with a variable in front of it, or with a
suffix that a shell would not take as it is, it stands between quotes as in a command, and
then these are part of the name that the backend reads.
-/

/-- A text is the expected one where a condition holds; where it fails, it is longer. -/
def ExactIf (condition : Prop) (text expected : List Item) : Prop :=
  (condition ∧ text = expected) ∨ (¬ condition ∧ expected.length < text.length)

namespace ExactIf

/-- A text is the expected one just where the condition holds. -/
theorem eq_iff
    {condition : Prop}
    {text expected : List Item}
    (exact : ExactIf condition text expected) :
    text = expected ↔ condition := by
  rcases exact with ⟨holds, same⟩ | ⟨fails, longer⟩
  · exact iff_of_true same holds
  · refine iff_of_false ?_ fails
    rintro rfl
    exact Nat.lt_irrefl _ longer

/-- Of two texts one after the other both have to be the expected ones. -/
theorem append
    {first second : Prop}
    {text expected others expectedOthers : List Item}
    (exact : ExactIf first text expected)
    (exactBehind : ExactIf second others expectedOthers) :
    ExactIf (first ∧ second) (text ++ others) (expected ++ expectedOthers) := by
  rcases exact with ⟨holds, rfl⟩ | ⟨fails, longer⟩
  · rcases exactBehind with ⟨holdsBehind, rfl⟩ | ⟨failsBehind, longerBehind⟩
    · exact .inl ⟨⟨holds, holdsBehind⟩, rfl⟩
    · refine .inr ⟨fun both => failsBehind both.2, ?_⟩
      rw [List.length_append, List.length_append]
      omega
  · refine .inr ⟨fun both => fails both.1, ?_⟩
    have atLeast : expectedOthers.length ≤ others.length := by
      rcases exactBehind with ⟨_, rfl⟩ | ⟨_, longerBehind⟩
      · exact Nat.le_refl _
      · exact Nat.le_of_lt longerBehind
    rw [List.length_append, List.length_append]
    omega

end ExactIf

namespace Shell

/-- Between quotes a character still takes one place at least. -/
theorem length_escapeCharacter_pos
    (character : Char) :
    0 < (escapeCharacter character).length := by
  unfold escapeCharacter
  split
  · decide
  · exact Nat.one_pos

/-- What is made ready for quotes is not shorter than before. -/
theorem length_le_escape
    (word : List Char) :
    word.length ≤ (escape word).1.length := by
  simp only [escape_eq]
  induction word with
  | nil =>
      exact Nat.le_refl _
  | cons character rest inductionHypothesis =>
      have notEmpty := length_escapeCharacter_pos character
      rw [List.flatMap_cons, List.length_append, List.length_cons]
      omega

/-- Quotes make a text longer by themselves. -/
theorem length_lt_wrap
    {text expected : List Char}
    (atLeast : expected.length ≤ text.length) :
    expected.length < (wrap text true).length := by
  simp only [wrap, ↓reduceIte, List.length_cons, List.length_append]
  omega

/-- A quoted word is the word itself just if all of its characters are safe. -/
theorem exactIf_quote
    (word : List Char) :
    ExactIf (word.all isSafe = true) (quote word) word := by
  show ExactIf _ (wrap (escape word).1 (escape word).2) word
  by_cases safe : word.all isSafe = true
  · left
    simp [escape, safe, wrap]
  · have quoted : (escape word).2 = true := by
      simp [escape, safe]
    rw [quoted]
    exact .inr ⟨safe, length_lt_wrap (length_le_escape word)⟩

end Shell

/-- Whether nothing in a path calls for quotes: no variable, and no unsafe character. -/
def Path.IsBare (pathVariables : PathVariables) (path : Path) : Prop :=
  path.head pathVariables = [] ∧ path.suffix.toList.all Shell.isSafe = true

/-- The current directory in the place of an empty suffix is safe, too. -/
theorem Path.all_isSafe_suffixAlone
    (suffix : String) :
    (suffixAlone suffix).toList.all Shell.isSafe = suffix.toList.all Shell.isSafe := by
  unfold suffixAlone
  split
  case isTrue isEmpty =>
    rw [isEmpty]
    decide
  case isFalse =>
    rfl

namespace Fragment

mutual

/-- The paths in a fragment, in order. -/
def paths : Fragment → List Path
  | .leaf _ => []
  | .path place => [place]
  | .concat pieces => pathsOf pieces

/-- The paths in several fragments, in order. -/
def pathsOf : List Fragment → List Path
  | [] => []
  | fragment :: rest => fragment.paths ++ pathsOf rest

end

end Fragment

namespace Ninja

/-! ## What the backend reads -/

section Read

variable
  (pathVariables : PathVariables)
  (values : String → List Char)

/-- What the backend reads of a path: what the path stands for, in quotes unless it is bare. -/
def readPath (path : Path) : List Char :=
  if path.head pathVariables = [] then
    Shell.quote (Path.suffixAlone path.suffix).toList
  else
    Shell.wrap
      (((path.head pathVariables).flatMap fun var => values var.name) ++
        escapedSuffix path.suffix)
      true

mutual

/-- What the backend reads of a single value: its texts as they are, and its paths. -/
def readValue : Fragment → List Char
  | .leaf leaf => leaf.text.toList
  | .path path => readPath pathVariables values path
  | .concat parts => readValues parts

/-- What the backend reads of several values, one after the other. -/
def readValues : List Fragment → List Char
  | [] => []
  | fragment :: rest => readValue fragment ++ readValues rest

end

/-- A path that is not bare is read with quotes around it. -/
theorem exactIf_readPath
    (path : Path) :
    ExactIf (path.IsBare pathVariables) (readPath pathVariables values path)
      ((path.symbols pathVariables).flatMap (Symbol.value values)) := by
  unfold readPath Path.IsBare
  by_cases headless : path.head pathVariables = []
  · rw [if_pos headless, Path.symbols_of_head_eq_nil headless, Symbol.flatMap_value_ofText,
      ← Path.all_isSafe_suffixAlone]
    simpa only [headless, true_and] using Shell.exactIf_quote _
  · have atLeast :
        ((Path.suffixAfterHead path.suffix).flatMap String.toList).length ≤
          (escapedSuffix path.suffix).length := by
      unfold escapedSuffix
      induction Path.suffixAfterHead path.suffix with
      | nil =>
          exact Nat.le_refl _
      | cons text rest inductionHypothesis =>
          have first := Shell.length_le_escape text.toList
          rw [List.flatMap_cons, List.flatMap_cons, List.length_append, List.length_append]
          omega
    rw [if_neg headless, Path.flatMap_symbols_of_head_ne_nil headless]
    refine .inr ⟨fun bare => headless bare.1, Shell.length_lt_wrap ?_⟩
    rw [List.length_append, List.length_append]
    omega

mutual

/-- A value is read as what it stands for just if all of its paths are bare. -/
theorem exactIf_readValue :
    ∀ fragment : Fragment,
      ExactIf (∀ path ∈ fragment.paths, path.IsBare pathVariables)
        (readValue pathVariables values fragment)
        (fragment.value pathVariables values)
  | .leaf leaf => by
      rw [Fragment.paths, readValue, Fragment.value, Fragment.symbols,
        Symbol.flatMap_value_ofText]
      exact .inl ⟨fun _ member => absurd member List.not_mem_nil, rfl⟩
  | .path path => by
      rw [Fragment.paths, readValue, Fragment.value, Fragment.symbols, List.forall_mem_singleton]
      exact exactIf_readPath pathVariables values path
  | .concat parts => by
      rw [Fragment.paths, readValue, Fragment.value, Fragment.symbols]
      exact exactIf_readValues parts

theorem exactIf_readValues :
    ∀ fragments : List Fragment,
      ExactIf (∀ path ∈ Fragment.pathsOf fragments, path.IsBare pathVariables)
        (readValues pathVariables values fragments)
        ((Fragment.symbolsOf pathVariables fragments).flatMap (Symbol.value values))
  | [] => by
      rw [Fragment.pathsOf]
      exact .inl ⟨fun _ member => absurd member List.not_mem_nil, rfl⟩
  | fragment :: rest => by
      rw [Fragment.pathsOf, readValues, Fragment.symbolsOf, List.flatMap_append,
        List.forall_mem_append]
      exact (exactIf_readValue fragment).append (exactIf_readValues rest)

end

/-- A path in a value is written as it is in a command, and read in quotes as there. -/
theorem expand_writtenPath_eq_readPath
    (target : Target)
    (path : Path) :
    expand values (writtenPath target .shell path).text =
      some (readPath target.pathVariables values path) := by
  unfold readPath
  by_cases headless : path.head target.pathVariables = []
  · rw [if_pos headless, writtenPath_text_of_head_eq_nil headless]
    exact expand_escapeText values .shell _
  · rw [if_neg headless]
    exact expand_writtenPath values headless

mutual

/-- A single value is expanded to what the backend reads. -/
theorem expand_writtenFragment
    (target : Target) :
    ∀ {fragment : Fragment},
      fragment.isOrdinary = true →
      expand values (writtenFragment target .shell .never fragment).text =
        some (readValue target.pathVariables values fragment)
  | .leaf (.plain text), _ =>
      expand_escapeText values .shell text.toList
  | .path path, _ => by
      rw [writtenFragment, readValue]
      exact expand_writtenPath_eq_readPath values target path
  | .concat parts, ordinary => by
      rw [Fragment.isOrdinary] at ordinary
      rw [writtenFragment, readValue]
      exact expand_writtenFragments target ordinary

theorem expand_writtenFragments
    (target : Target) :
    ∀ {fragments : List Fragment},
      Fragment.areOrdinary fragments = true →
      expand values (writtenFragments target .shell .never fragments).text =
        some (readValues target.pathVariables values fragments)
  | [], _ => rfl
  | fragment :: rest, ordinary => by
      rw [Fragment.areOrdinary, Bool.and_eq_true] at ordinary
      rw [writtenFragments, readValues]
      exact expand_append (expand_writtenFragment target ordinary.1)
        (expand_writtenFragments target ordinary.2)

end

end Read

/-! ## Generated files -/

/-- The dependency file of a rule is what its block binds under that name. -/
theorem boundText?_depfile
    (target : Target)
    {rule : Rule}
    {depfile : Fragment}
    (given : rule.depfile = some depfile) :
    boundText? "depfile" (ruleBlock target rule) =
      some (writeValue target .shell (.text depfile)).text := by
  have passed :
      behind? (indentation.toList ++ ("depfile".toList ++ " = ".toList))
          (bindingLine target ("command", rule.command)) =
        none := by
    have spaceless : ' ' ∉ "command".toList := by
      decide
    have different : "command" ≠ "depfile" := by
      decide
    rw [behind?_bindingLine target (by decide) spaceless, if_neg different]
  have own := behind?_ownName target ("depfile", .text depfile)
  simp only [boundText?, ruleBlock, List.tail_cons, ruleBindings, given, Option.map_some,
    Option.toList_some, List.append_assoc, List.cons_append, List.nil_append, List.map_cons,
    List.findSome?_cons, passed, own]

/--
In a generated text the block of a rule binds the name of its dependency file.  Where this is
put together from plain text and paths, it is read as what it stands for, whatever the
variables hold, just if no path in it has a variable in front of it or an unsafe character in
its suffix: any other path is read with quotes around it.
-/
theorem expand_depfile_iff
    {file : BuildFile}
    (reachable : file.Reachable)
    {rule : Rule}
    (member : rule ∈ file.rules)
    {depfile : Fragment}
    (given : rule.depfile = some depfile)
    (ordinary : depfile.isOrdinary = true)
    {text : String}
    (generated : generate file = .ok text) :
    let pathVariables := file.target.pathVariables
    ∃ body block written,
      text.toList = (header file.source).toList ++ body ∧
      block ∈ readBlocks body ∧
      block.head? = some ("rule ".toList ++ rule.name.toList) ∧
      boundText? "depfile" block = some written ∧
      ∀ values,
        expand values written = some (readValue pathVariables values depfile) ∧
        (expand values written = some (depfile.value pathVariables values) ↔
          ∀ path ∈ depfile.paths, path.IsBare pathVariables) := by
  intro pathVariables
  have checked : depfile.check = .ok () :=
    (reachable.onSingleLines.rules rule member).depfile depfile given
  obtain ⟨body, front, closing, shape, blocks⟩ := readBlocks_of_generate reachable generated
  have inBody : ruleBlock file.target rule ∈ readBlocks body := by
    rw [blocks]
    simp only [List.mem_append, List.mem_map]
    exact .inl (.inr (.inl ⟨rule, member, rfl⟩))
  have written :
      (writeValue file.target .shell (.text depfile)).text =
        (writtenFragment file.target .shell .never depfile).text := by
    rw [writeValue, writeFragment_eq_write file.target .shell .never checked]
    rfl
  refine ⟨body, _, _, shape, inBody, rfl, boundText?_depfile file.target given, ?_⟩
  intro values
  have reads := expand_writtenFragment values file.target ordinary
  rw [written, reads]
  exact ⟨rfl, Option.some_inj.trans (exactIf_readValue pathVariables values depfile).eq_iff⟩

/-- Plain text in the name of a dependency file is read as it is, blanks and quotes alike. -/
theorem expand_depfile_plain :
    let depfile :=
      Fragment.concat [.plain "it's $1 of ", .path (.below .buildTree "obj/a.d")]
    let file :=
      BuildFile.run
        [.declareRule "cc" (.single (.arguments [.text (.plain "cc")]))
          { depfile := some depfile }]
        (.empty "build.bfg" (.forPlatform .linux))
    ∃ text body block written,
      generate file = .ok text ∧
        text.toList = (header file.source).toList ++ body ∧
        block ∈ readBlocks body ∧
        boundText? "depfile" block = some written ∧
        expand (fun _ => []) written = some "it's $1 of obj/a.d".toList := by
  intro depfile file
  have reachable : file.Reachable := ⟨_, _, _, rfl⟩
  have ended : (writeFile file).outcome = .ok () := by
    decide +kernel
  have generated := generate_of_ended ended
  let rule : Rule :=
    { name := "cc"
      command := .words [.text (.plain "cc")]
      depfile := some depfile
      deps := none
      generator := false
      pool := none
      restat := false }
  have member : rule ∈ file.rules :=
    List.mem_cons_self
  obtain ⟨body, block, written, shape, inBody, _, bound, reads⟩ :=
    expand_depfile_iff reachable member rfl rfl generated
  have bare :
      ∀ path ∈ depfile.paths, path.IsBare file.target.pathVariables :=
    List.forall_mem_singleton.mpr ⟨by decide +kernel, by decide +kernel⟩
  refine ⟨_, body, block, written, generated, shape, inBody, bound, ?_⟩
  rw [(reads _).2.mpr bare]
  decide +kernel

/--
A path below the source tree comes in quotes, though no shell reads it: the backend looks for
a file whose name begins and ends with a quote.
-/
theorem expand_depfile_sourceTree :
    let depfile := Fragment.path (.below .sourceTree "a.d")
    let file :=
      BuildFile.run
        [.declareRule "cc" (.single (.arguments [.text (.plain "cc")]))
          { depfile := some depfile }]
        (.empty "build.bfg" (.forPlatform .linux))
    let values := fun name => if name = "srcdir" then "/src".toList else []
    file.Reachable ∧
      (∃ rule ∈ file.rules, rule.depfile = some depfile) ∧
      depfile.value file.target.pathVariables values = "/src/a.d".toList ∧
      ∃ text body block written,
        generate file = .ok text ∧
          text.toList = (header file.source).toList ++ body ∧
          block ∈ readBlocks body ∧
          boundText? "depfile" block = some written ∧
          written = "'$\x7bsrcdir\x7d/a.d'".toList ∧
          expand values written = some "'/src/a.d'".toList := by
  intro depfile file values
  have reachable : file.Reachable := ⟨_, _, _, rfl⟩
  have ended : (writeFile file).outcome = .ok () := by
    decide +kernel
  have generated := generate_of_ended ended
  let written := "'$\x7bsrcdir\x7d/a.d'".toList
  refine ⟨reachable, ⟨_, List.mem_cons_self, rfl⟩, ?_, _, _,
    ["rule cc".toList, "  command = cc".toList, "  depfile = ".toList ++ written], written,
    generated, toList_eq_of_generate generated, ?_, ?_, ?_, ?_⟩
  all_goals decide +kernel

end Ninja

end BuildGraph
