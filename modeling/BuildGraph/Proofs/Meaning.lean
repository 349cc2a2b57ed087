import BuildGraph.Fragment

namespace BuildGraph

/-!
# What fragments stand for

A fragment of plain text and paths stands for a sequence of characters and references
to variables.  How the fragment is escaped or quoted somewhere does not change that
sequence, and neither does what the variables hold.
-/

/-- A character of a text, or a variable whose value stands in its place. -/
inductive Symbol where
  | plain (character : Char)
  | reference (name : String)
  deriving Repr, DecidableEq

/-- The text of a symbol once the variables have values. -/
def Symbol.value (values : String → List Char) : Symbol → List Char
  | .plain character => [character]
  | .reference name => values name

/-- The symbols of a text without references. -/
def Symbol.ofText (text : List Char) : List Symbol :=
  text.map .plain

/--
What a path stands for.

The references to the staging directory and to the root come first, where the path is
staged and there are variables for them.  The suffix follows behind a slash, which is
left out when the suffix is empty or brings its own.  Without a reference the suffix
stands alone, and the current directory stands for an empty one.
-/
def Path.symbols (path : Path) (pathVariables : PathVariables) : List Symbol :=
  let staging := if path.isStaged then pathVariables.staging.toList else []
  let roots := staging ++ (pathVariables.get path.root).toList
  let references := roots.map fun var => Symbol.reference var.name
  let suffix := Symbol.ofText path.suffix.toList
  if references = [] ∧ suffix = [] then [.plain '.']
  else if references = [] ∨ suffix = [] ∨ suffix.head? = some (.plain '/') then
    references ++ suffix
  else references ++ .plain '/' :: suffix

namespace Fragment

mutual

/-- Whether a fragment is put together from plain text and paths alone. -/
def isOrdinary : Fragment → Bool
  | .leaf (.plain _) | .path _ => true
  | .leaf (.literal _) | .leaf (.shellLiteral _) => false
  | .concat pieces => areOrdinary pieces

/-- Whether fragments are all put together from plain text and paths. -/
def areOrdinary : List Fragment → Bool
  | [] => true
  | fragment :: rest => fragment.isOrdinary && areOrdinary rest

end

mutual

/-- What a fragment stands for. -/
def symbols (pathVariables : PathVariables) : Fragment → List Symbol
  | .leaf piece => Symbol.ofText piece.text.toList
  | .path place => place.symbols pathVariables
  | .concat pieces => symbolsOf pathVariables pieces

/-- What several fragments stand for, one after the other. -/
def symbolsOf (pathVariables : PathVariables) : List Fragment → List Symbol
  | [] => []
  | fragment :: rest =>
      fragment.symbols pathVariables ++ symbolsOf pathVariables rest

end

/-- The text that a fragment stands for once the variables have values. -/
def value
    (pathVariables : PathVariables)
    (values : String → List Char)
    (fragment : Fragment) :
    List Char :=
  (fragment.symbols pathVariables).flatMap (Symbol.value values)

theorem checkAll_eq_ok_iff
    {fragments : List Fragment} :
    checkAll fragments = .ok () ↔
      ∀ fragment ∈ fragments, fragment.check = .ok () := by
  induction fragments with
  | nil =>
      simp [checkAll]
  | cons fragment rest inductionHypothesis =>
      cases checked : fragment.check with
      | error illegal =>
          simp [checkAll, checked, bind, Except.bind]
      | ok _ =>
          simp [checkAll, checked, bind, Except.bind, inductionHypothesis]

end Fragment

@[simp] theorem Symbol.flatMap_value_ofText
    (values : String → List Char)
    (text : List Char) :
    (Symbol.ofText text).flatMap (Symbol.value values) = text := by
  induction text with
  | nil =>
      rfl
  | cons character rest inductionHypothesis =>
      simpa [Symbol.ofText, Symbol.value] using inductionHypothesis

namespace Path

/-- The references of a path are those of its head. -/
theorem symbols_eq
    (path : Path)
    (pathVariables : PathVariables) :
    path.symbols pathVariables =
      let references :=
        (path.head pathVariables).map fun var => Symbol.reference var.name
      let suffix := Symbol.ofText path.suffix.toList
      if references = [] ∧ suffix = [] then [.plain '.']
      else if
          references = [] ∨ suffix = [] ∨ suffix.head? = some (.plain '/') then
        references ++ suffix
      else references ++ .plain '/' :: suffix :=
  rfl

/-- The suffix as it follows something: behind a slash, unless it is empty or has one. -/
def suffixAfterHead (suffix : String) : List String :=
  if suffix = "" then []
  else if suffix.toList.head? = some '/' then [suffix]
  else ["/", suffix]

/-- The suffix as it stands alone: the current directory when it is empty. -/
def suffixAlone (suffix : String) : String :=
  if suffix = "" then "." else suffix

theorem resolve_of_head_eq_nil
    {path : Path}
    {pathVariables : PathVariables}
    (headless : path.head pathVariables = []) :
    path.resolve pathVariables = [.plain (suffixAlone path.suffix)] := by
  rw [resolve, realize, headless]
  rfl

theorem resolve_of_head_ne_nil
    {path : Path}
    {pathVariables : PathVariables}
    (hasHead : path.head pathVariables ≠ []) :
    path.resolve pathVariables =
      (path.head pathVariables).map (fun var => .literal var.reference) ++
        (suffixAfterHead path.suffix).map .plain := by
  have suffix : Fragment.leavesOf path.behindHead = (suffixAfterHead path.suffix).map .plain := by
    unfold behindHead suffixAfterHead
    split
    · rfl
    · split <;> rfl
  unfold resolve realize
  split
  · contradiction
  · rw [Fragment.leaves, Fragment.leavesOf_append, Fragment.leavesOf_map_use, suffix]

/-- A path without variables stands for its suffix alone. -/
theorem symbols_of_head_eq_nil
    {path : Path}
    {pathVariables : PathVariables}
    (headless : path.head pathVariables = []) :
    path.symbols pathVariables =
      Symbol.ofText (suffixAlone path.suffix).toList := by
  by_cases empty : path.suffix = ""
  · simp [symbols_eq, headless, suffixAlone, empty, Symbol.ofText]
  · simp [symbols_eq, headless, suffixAlone, empty, Symbol.ofText]

/-- A path with variables stands for their references and the suffix behind them. -/
theorem symbols_of_head_ne_nil
    {path : Path}
    {pathVariables : PathVariables}
    (hasHead : path.head pathVariables ≠ []) :
    path.symbols pathVariables =
      ((path.head pathVariables).map fun var => Symbol.reference var.name) ++
        (suffixAfterHead path.suffix).flatMap fun text =>
          Symbol.ofText text.toList := by
  by_cases empty : path.suffix = ""
  · simp [symbols_eq, hasHead, empty, Symbol.ofText, suffixAfterHead]
  · by_cases slash : path.suffix.toList.head? = some '/'
    · simp [symbols_eq, hasHead, empty, slash, Symbol.ofText, suffixAfterHead]
    · simp [symbols_eq, hasHead, empty, slash, Symbol.ofText, suffixAfterHead]

/-- Once variables have values, a path stands for those in front of it and the suffix. -/
theorem flatMap_symbols_of_head_ne_nil
    {path : Path}
    {pathVariables : PathVariables}
    (hasHead : path.head pathVariables ≠ [])
    (values : String → List Char) :
    (path.symbols pathVariables).flatMap (Symbol.value values) =
      ((path.head pathVariables).flatMap fun var => values var.name) ++
        (suffixAfterHead path.suffix).flatMap String.toList := by
  rw [symbols_of_head_ne_nil hasHead, List.flatMap_append, List.flatMap_map,
    List.flatMap_assoc]
  simp only [Symbol.flatMap_value_ofText, Symbol.value]

/-- A path always stands for something. -/
theorem symbols_ne_nil
    (path : Path)
    (pathVariables : PathVariables) :
    path.symbols pathVariables ≠ [] := by
  by_cases headless : path.head pathVariables = []
  · rw [symbols_of_head_eq_nil headless]
    by_cases empty : path.suffix = ""
    · simp [suffixAlone, empty, Symbol.ofText]
    · simp [suffixAlone, empty, Symbol.ofText]
  · rw [symbols_of_head_ne_nil headless]
    simp [headless]

end Path

end BuildGraph
