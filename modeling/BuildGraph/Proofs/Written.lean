import BuildGraph.Ninja.Fragment
import BuildGraph.Proofs.Meaning
import BuildGraph.Proofs.Spelling

namespace BuildGraph

/-!
# What is written of fragments on a single line

The writers stop at a line break and at nothing else.  For a fragment without line breaks
the whole text is given here by plain functions, and the writers are proved to write
just that.
-/

namespace Text

theorem checkSingleLine_eq_ok
    {text : List Char}
    (singleLine : '\n' ∉ text) :
    checkSingleLine text = .ok () :=
  checkSingleLine_eq_ok_iff.mpr singleLine

end Text

/-- A name holds nothing but characters of names. -/
theorem notMem_of_nameCharacters
    {character : Char}
    (foreign : isNameCharacter character = false)
    {text : List Char}
    (nameCharacters : text.all isNameCharacter = true) :
    character ∉ text := by
  intro member
  have named := List.all_eq_true.mp nameCharacters character member
  rw [foreign] at named
  contradiction

namespace Variable

theorem newline_notMem_name
    (var : Variable) :
    '\n' ∉ var.name.toList :=
  notMem_of_nameCharacters (by decide) var.normalised

theorem newline_notMem_reference
    (var : Variable) :
    '\n' ∉ var.reference.toList := by
  simp [reference, var.newline_notMem_name]

/-- A reference is accepted wherever text is checked for line breaks. -/
@[simp] theorem check_use
    (var : Variable) :
    var.use.check = .ok () :=
  Text.checkSingleLine_eq_ok var.newline_notMem_reference

end Variable

namespace Path

/-- A path on a single line resolves to text on a single line. -/
theorem newline_notMem_resolve
    {path : Path}
    (checked : path.check = .ok ())
    (pathVariables : PathVariables) :
    ∀ leaf ∈ path.resolve pathVariables, '\n' ∉ leaf.text.toList := by
  have singleLine : '\n' ∉ path.suffix.toList :=
    Text.checkSingleLine_eq_ok_iff.mp checked
  have alone : '\n' ∉ (suffixAlone path.suffix).toList := by
    unfold suffixAlone
    split
    · decide
    · exact singleLine
  have behindHead :
      ∀ text ∈ suffixAfterHead path.suffix, '\n' ∉ text.toList := by
    unfold suffixAfterHead
    split
    · simp
    · split <;> simp [singleLine]
  intro leaf member
  by_cases headless : path.head pathVariables = []
  · rw [resolve_of_head_eq_nil headless, List.mem_singleton] at member
    rw [member]
    exact alone
  · rw [resolve_of_head_ne_nil headless] at member
    rcases List.mem_append.mp member with inHead | inSuffix
    · obtain ⟨var, _, rfl⟩ := List.mem_map.mp inHead
      exact var.newline_notMem_reference
    · obtain ⟨text, textMember, rfl⟩ := List.mem_map.mp inSuffix
      exact behindHead text textMember

end Path

namespace Ninja

/-- A written text together with the report whether it needs quotes. -/
structure Written where
  text : List Char
  needsQuotes : Bool
  deriving Repr, DecidableEq

namespace Written

/-- Nothing is written, and nothing needs quotes. -/
def nothing : Written := ⟨[], false⟩

/-- One text after the other, which needs quotes when one of them does. -/
def append (first second : Written) : Written :=
  ⟨first.text ++ second.text, first.needsQuotes || second.needsQuotes⟩

/-- Texts one after the other. -/
def concat : List Written → Written
  | [] => nothing
  | first :: rest => first.append (concat rest)

/-- The output that writes the text and reports about it. -/
def output (written : Written) : Output Bool :=
  ⟨written.text, .ok written.needsQuotes⟩

/-- Outputs that follow each other write their texts one after the other. -/
theorem andThen_output
    (first second : Written) :
    (first.output.andThen fun one =>
        second.output.andThen fun other => Output.result (one || other)) =
      (first.append second).output := by
  simp [output, append, Output.andThen, Output.result]

theorem concat_text
    (parts : List Written) :
    (concat parts).text = parts.flatMap text := by
  induction parts with
  | nil =>
      rfl
  | cons first rest inductionHypothesis =>
      simp [concat, append, inductionHypothesis]

theorem concat_needsQuotes
    (parts : List Written) :
    (concat parts).needsQuotes = parts.any needsQuotes := by
  induction parts with
  | nil =>
      rfl
  | cons first rest inductionHypothesis =>
      simp [concat, append, inductionHypothesis]

end Written

/-- What is written of a leaf. -/
def writtenLeaf
    (position : Position)
    (quoting : Quoting) :
    Leaf →
    Written
  | .literal text => ⟨text.toList, true⟩
  | .shellLiteral text => ⟨escapeText position text.toList, true⟩
  | .plain text =>
      let quoted := quoteFor position quoting text.toList
      ⟨escapeText position quoted.1, quoted.2⟩

/-- What is written of the parts that a path resolves to, before they are quoted. -/
def writtenParts
    (target : Target)
    (position : Position)
    (path : Path) :
    Written :=
  .concat ((path.resolve target.pathVariables).map (writtenLeaf position .escape))

/-- What is written of a path. -/
def writtenPath
    (target : Target)
    (position : Position)
    (path : Path) :
    Written :=
  let parts := writtenParts target position path
  ⟨Shell.wrap parts.text (position = .shell && parts.needsQuotes),
    parts.needsQuotes⟩

mutual

/-- What is written of a fragment. -/
def writtenFragment
    (target : Target)
    (position : Position)
    (quoting : Quoting) :
    Fragment →
    Written
  | .leaf leaf => writtenLeaf position quoting leaf
  | .path path => writtenPath target position path
  | .concat parts => writtenFragments target position quoting parts

/-- What is written of fragments one after the other. -/
def writtenFragments
    (target : Target)
    (position : Position)
    (quoting : Quoting) :
    List Fragment →
    Written
  | [] => .nothing
  | fragment :: rest =>
      (writtenFragment target position quoting fragment).append
        (writtenFragments target position quoting rest)

end

/-- Quoting for the shell adds no line break. -/
theorem newline_notMem_quoteFor
    {text : List Char}
    (singleLine : '\n' ∉ text)
    (position : Position)
    (quoting : Quoting) :
    '\n' ∉ (quoteFor position quoting text).1 := by
  have escaped : '\n' ∉ (Shell.escape text).1 := by
    rw [Shell.escape_eq]
    intro member
    obtain ⟨character, inText, inEscape⟩ := List.mem_flatMap.mp member
    unfold Shell.escapeCharacter at inEscape
    split at inEscape
    · revert inEscape
      decide
    · obtain rfl : '\n' = character := by simpa using inEscape
      exact singleLine inText
  have wrapped : '\n' ∉ (Shell.quoteInfo text).1 := by
    show '\n' ∉ Shell.wrap (Shell.escape text).1 (Shell.escape text).2
    unfold Shell.wrap
    split
    · simp [escaped]
    · exact escaped
  unfold quoteFor
  split
  · exact wrapped
  · exact escaped
  · exact singleLine

/-- Escaping puts nothing but `$` into a text. -/
theorem newline_notMem_escapeText
    {text : List Char}
    (singleLine : '\n' ∉ text)
    (position : Position) :
    '\n' ∉ escapeText position text := by
  intro member
  obtain ⟨character, inText, inEscape⟩ := List.mem_flatMap.mp member
  have same : '\n' = character := by
    split at inEscape
    · simpa using inEscape
    · simpa using inEscape
  exact singleLine (same ▸ inText)

theorem escapeText_of_noneSpecial
    {position : Position}
    {text : List Char}
    (noneSpecial : ∀ character ∈ text, isSpecial position character = false) :
    escapeText position text = text := by
  unfold escapeText
  induction text with
  | nil =>
      rfl
  | cons character rest inductionHypothesis =>
      rw [List.forall_mem_cons] at noneSpecial
      simp [noneSpecial.1, inductionHypothesis noneSpecial.2]

theorem writeEscaped_eq_write
    {text : List Char}
    (singleLine : '\n' ∉ text)
    (position : Position) :
    writeEscaped position text = Output.write (escapeText position text) := by
  simp [writeEscaped, escape, Text.checkSingleLine_eq_ok singleLine, Except.map]

theorem writeLeaf_eq_output
    {leaf : Leaf}
    (singleLine : '\n' ∉ leaf.text.toList)
    (position : Position)
    (quoting : Quoting) :
    writeLeaf position quoting leaf =
      (writtenLeaf position quoting leaf).output := by
  cases leaf with
  | literal text =>
      have checked := Text.checkSingleLine_eq_ok singleLine
      simp only [Leaf.text] at checked
      simp only [writeLeaf, checked, Output.require, Output.bind_eq_andThen,
        Output.result_andThen, Output.pure_eq_result, Output.write_andThen]
      simp [writtenLeaf, Written.output, Output.result]
  | shellLiteral text =>
      simp only [Leaf.text] at singleLine
      simp [writeLeaf, writeEscaped_eq_write singleLine, writtenLeaf,
        Written.output, Output.result]
  | plain text =>
      simp only [Leaf.text] at singleLine
      have quoted := newline_notMem_quoteFor singleLine position quoting
      simp [writeLeaf, writeEscaped_eq_write quoted, writtenLeaf,
        Written.output, Output.result]

theorem writeLeaves_eq_output
    {leaves : List Leaf}
    (singleLine : ∀ leaf ∈ leaves, '\n' ∉ leaf.text.toList)
    (position : Position)
    (quoting : Quoting) :
    writeLeaves position quoting leaves =
      (Written.concat (leaves.map (writtenLeaf position quoting))).output := by
  induction leaves with
  | nil =>
      rfl
  | cons leaf rest inductionHypothesis =>
      rw [List.forall_mem_cons] at singleLine
      simp only [writeLeaves, Output.bind_eq_andThen, Output.pure_eq_result,
        writeLeaf_eq_output singleLine.1, inductionHypothesis singleLine.2,
        Written.andThen_output, List.map_cons, Written.concat]

/-- A path on a single line is written whole. -/
theorem writePath_eq_output
    {path : Path}
    (checked : path.check = .ok ())
    (target : Target)
    (position : Position) :
    writePath target position path =
      (writtenPath target position path).output := by
  have parts :=
    writeLeaves_eq_output
      (path.newline_notMem_resolve checked target.pathVariables)
      position .escape
  simp [writePath, parts, writtenPath, writtenParts, Written.output,
    Output.result]

mutual

/-- A fragment on a single line is written whole. -/
theorem writeFragment_eq_output
    (target : Target)
    (position : Position)
    (quoting : Quoting) :
    ∀ {fragment : Fragment},
      fragment.check = .ok () →
      writeFragment target position quoting fragment =
        (writtenFragment target position quoting fragment).output
  | .leaf leaf, checked => by
      rw [Fragment.check] at checked
      rw [writeFragment, writtenFragment]
      exact writeLeaf_eq_output (Text.checkSingleLine_eq_ok_iff.mp checked) _ _
  | .path path, checked => by
      rw [Fragment.check] at checked
      rw [writeFragment, writtenFragment]
      exact writePath_eq_output checked target position
  | .concat parts, checked => by
      rw [Fragment.check] at checked
      rw [writeFragment, writtenFragment]
      exact writeFragments_eq_output target position quoting checked

theorem writeFragments_eq_output
    (target : Target)
    (position : Position)
    (quoting : Quoting) :
    ∀ {fragments : List Fragment},
      Fragment.checkAll fragments = .ok () →
      writeFragments target position quoting fragments =
        (writtenFragments target position quoting fragments).output
  | [], _ => rfl
  | fragment :: rest, checked => by
      rw [Fragment.checkAll_eq_ok_iff, List.forall_mem_cons,
        ← Fragment.checkAll_eq_ok_iff] at checked
      simp only [writeFragments, writtenFragments, Output.bind_eq_andThen,
        Output.pure_eq_result,
        writeFragment_eq_output target position quoting checked.1,
        writeFragments_eq_output target position quoting checked.2,
        Written.andThen_output]

end

/-- Where nobody asks for quotes, a fragment on a single line is written as text alone. -/
theorem writeFragment_eq_write
    (target : Target)
    (position : Position)
    (quoting : Quoting)
    {fragment : Fragment}
    (checked : fragment.check = .ok ()) :
    (do
      let _ ← writeFragment target position quoting fragment) =
      Output.write (writtenFragment target position quoting fragment).text := by
  rw [writeFragment_eq_output target position quoting checked]
  simp [Written.output, Output.andThen, Output.result, Output.write]

end Ninja

end BuildGraph
