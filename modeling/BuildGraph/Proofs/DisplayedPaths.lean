import BuildGraph.Proofs.Marks

namespace BuildGraph

/-!
# How paths are displayed

A message shows a path with the names of its roots in parentheses, without asking which
variables there are.  A build file has references in their place, to the variables of its
target.  Both lay out a list of names and a suffix in the same way, so they tell the same
path just if the names are the same.  With the conventional variables of a platform they are,
except that a platform without staging has no name for the staging directory.
-/

/-! ## References for a reader -/

/-- The name of the variable that a leaf refers to, if it is a reference and nothing else. -/
def Leaf.referenceName? : Leaf → Option String
  | .literal text =>
      match Ninja.readMarks text.toList with
      | some [.reference name] => some name
      | _ => none
  | .shellLiteral _ | .plain _ => none

/-- A name as a reader is shown it. -/
def shownName (name : String) : List Char :=
  "$(".toList ++ name.toList ++ ")".toList

/-- A leaf as a reader is shown it: a reference by its name, and plain text as it is. -/
def Leaf.shown : Leaf → Option (List Char)
  | .literal text => (Leaf.literal text).referenceName?.map shownName
  | .shellLiteral _ => none
  | .plain text => some text.toList

namespace Fragment

mutual

/-- A fragment as a reader is shown it, unless there is more in it than references and text. -/
def shown : Fragment → Option (List Char)
  | .leaf piece => piece.shown
  | .path _ => none
  | .concat pieces => shownAll pieces

/-- Several fragments as a reader is shown them, one after the other. -/
def shownAll : List Fragment → Option (List Char)
  | [] => some []
  | fragment :: rest => do
      let first ← fragment.shown
      let others ← shownAll rest
      return first ++ others

end

theorem shownAll_append
    {first second : List Fragment}
    {text behind : List Char}
    (shownFirst : shownAll first = some text)
    (shownSecond : shownAll second = some behind) :
    shownAll (first ++ second) = some (text ++ behind) := by
  induction first generalizing text with
  | nil =>
      cases shownFirst
      exact shownSecond
  | cons fragment rest inductionHypothesis =>
      obtain ⟨front, isFront, shownFirst⟩ := Option.bind_eq_some_iff.mp shownFirst
      obtain ⟨others, areOthers, ⟨⟩⟩ := Option.bind_eq_some_iff.mp shownFirst
      rw [List.cons_append, shownAll, isFront, inductionHypothesis areOthers, List.append_assoc]
      rfl

end Fragment

namespace Variable

/-- The reference to a variable has the name of that variable. -/
theorem referenceName?_reference
    (var : Variable) :
    (Leaf.literal var.reference).referenceName? = some var.name := by
  simp [Leaf.referenceName?, Ninja.readMarks_reference]

theorem shownAll_map_use
    (vars : List Variable) :
    Fragment.shownAll (vars.map use) = some (vars.flatMap fun var => shownName var.name) := by
  induction vars with
  | nil =>
      rfl
  | cons var others inductionHypothesis =>
      have shownFirst : var.use.shown = some (shownName var.name) := by
        rw [use, Fragment.shown, Leaf.shown, referenceName?_reference, Option.map_some]
      rw [List.map_cons, Fragment.shownAll, shownFirst, inductionHypothesis, List.flatMap_cons]
      rfl

end Variable

namespace Path

/-! ## Names and a suffix -/

/-- A suffix behind a number of names: behind a slash, or a point in the place of nothing. -/
def laidBehind (names : List String) (suffix : String) : List Char :=
  if suffix = "" then
    if names = [] then ['.'] else []
  else if names = [] ∨ suffix.toList.head? = some '/' then
    suffix.toList
  else
    '/' :: suffix.toList

/-- Names in parentheses and the suffix behind them. -/
def laidOut (names : List String) (suffix : String) : List Char :=
  names.flatMap shownName ++ laidBehind names suffix

/-- The names of the roots of a path, of which the staging directory need not be one. -/
def rootNames (path : Path) (isStaged : Bool) : List String :=
  (if isStaged then ["DESTDIR"] else []) ++ path.displayedRoot?.toList

/-- A path is displayed by the names of its roots. -/
theorem toList_display
    (path : Path) :
    path.display.toList = laidOut (path.rootNames path.isStaged) path.suffix := by
  have hasHead :
      (path.isStaged || path.displayedRoot?.isSome) = true ↔
        path.rootNames path.isStaged ≠ [] := by
    unfold rootNames
    cases path.isStaged <;> cases path.displayedRoot? <;> simp
  rw [display, String.toList_append, laidOut]
  congr 1
  · unfold rootNames
    cases path.isStaged <;> cases path.displayedRoot? <;> simp [shownName]
  · simp only [hasHead, laidBehind]
    by_cases isEmpty : path.suffix = ""
    · by_cases headless : path.rootNames path.isStaged = []
      · simp [isEmpty, headless]
      · simp [isEmpty, headless]
    · by_cases headless : path.rootNames path.isStaged = []
      · simp [isEmpty, headless]
      · by_cases rooted : path.suffix.toList.head? = some '/'
        · simp [isEmpty, headless, rooted]
        · simp [isEmpty, headless, rooted]

/-- A resolved path is shown by the names of the variables that stand for its roots. -/
theorem shown_realize
    (path : Path)
    (pathVariables : PathVariables) :
    (path.realize pathVariables).shown =
      some (laidOut ((path.head pathVariables).map Variable.name) path.suffix) := by
  unfold realize
  split
  case h_1 headless =>
    rw [headless, laidOut, laidBehind, Fragment.shown, Leaf.shown]
    by_cases isEmpty : path.suffix = ""
    · simp [isEmpty]
    · simp [isEmpty]
  case h_2 hasHead =>
    have hasNames : (path.head pathVariables).map Variable.name ≠ [] := by
      simpa using hasHead
    have behind :
        Fragment.shownAll path.behindHead =
          some (laidBehind ((path.head pathVariables).map Variable.name) path.suffix) := by
      simp only [behindHead, laidBehind, hasNames, false_or, if_false]
      by_cases isEmpty : path.suffix = ""
      · simp [isEmpty, Fragment.shownAll]
      · by_cases rooted : path.suffix.toList.head? = some '/'
        · simp [isEmpty, rooted, Fragment.shownAll, Fragment.shown, Leaf.shown]
        · simp [isEmpty, rooted, Fragment.shownAll, Fragment.shown, Leaf.shown]
    rw [Fragment.shown, Fragment.shownAll_append (Variable.shownAll_map_use _) behind, laidOut,
      List.flatMap_map]

/-- The references of a resolved path are those to the variables of its roots, in this order. -/
theorem filterMap_referenceName?_realize
    (path : Path)
    (pathVariables : PathVariables) :
    (path.realize pathVariables).leaves.filterMap Leaf.referenceName? =
      (path.head pathVariables).map Variable.name := by
  have suffix : (Fragment.leavesOf path.behindHead).filterMap Leaf.referenceName? = [] := by
    unfold behindHead
    split
    · rfl
    · split <;> rfl
  unfold realize
  split
  case h_1 headless =>
    rw [headless]
    rfl
  case h_2 hasHead =>
    rw [Fragment.leaves, Fragment.leavesOf_append, List.filterMap_append, suffix,
      Fragment.leavesOf_map_use, List.filterMap_map, List.append_nil]
    simp only [Function.comp_def, Variable.referenceName?_reference, List.filterMap_eq_map']

/-- One more name in front makes the text longer. -/
theorem length_laidOut_lt_cons
    (name : String)
    (names : List String)
    (suffix : String) :
    (laidOut names suffix).length < (laidOut (name :: names) suffix).length := by
  have parentheses : 3 ≤ (shownName name).length := by
    simp [shownName]
  have behind :
      (laidBehind names suffix).length ≤ (laidBehind (name :: names) suffix).length + 1 := by
    unfold laidBehind
    by_cases isEmpty : suffix = ""
    · by_cases headless : names = []
      · simp [isEmpty, headless]
      · simp [isEmpty, headless]
    · by_cases rooted : suffix.toList.head? = some '/'
      · simp [isEmpty, rooted]
      · by_cases headless : names = []
        · simp [isEmpty, rooted, headless, Nat.le_add_right_of_le]
        · simp [isEmpty, rooted, headless]
  rw [laidOut, laidOut, List.flatMap_cons, List.append_assoc, List.length_append,
    List.length_append, List.length_append]
  omega

/-! ## Conventional variables -/

/-- The conventional variables are named as the roots are, if they stand for them at all. -/
theorem map_name_head_forPlatform
    (path : Path)
    (platform : Platform) :
    (path.head (.forPlatform platform)).map Variable.name =
      path.rootNames (path.isStaged && platform.supportsStaging) := by
  have root :
      ((PathVariables.forPlatform platform).get path.root).toList.map Variable.name =
        path.displayedRoot?.toList := by
    unfold displayedRoot?
    rcases path.root with _ | _ | _ | (_ | _ | _ | _ | _) <;> rfl
  have staging :
      (PathVariables.forPlatform platform).staging.toList.map Variable.name =
        if platform.supportsStaging then ["DESTDIR"] else [] := by
    cases platform <;> rfl
  rw [head, List.map_append, root, rootNames]
  cases path.isStaged with
  | true =>
      simpa using staging
  | false =>
      rfl

/--
A path that is resolved with the conventional variables of a platform refers to the variable
of its root, and in front of it to that of the staging directory if it can be staged there.
Shown with its references in parentheses and its text as it is, it is the displayed path.  This
holds of every path just if the platform can stage files; where it cannot, it holds of the paths
that are not staged, for a display names the staging directory in any case.
-/
theorem shown_realize_eq_display_iff
    (path : Path)
    (platform : Platform) :
    let realized := path.realize (.forPlatform platform)
    realized.leaves.filterMap Leaf.referenceName? =
        path.rootNames (path.isStaged && platform.supportsStaging) ∧
      (realized.shown = some path.display.toList ↔
        platform.supportsStaging = true ∨ path.isStaged = false) := by
  intro realized
  refine ⟨(path.filterMap_referenceName?_realize _).trans
    (path.map_name_head_forPlatform platform), ?_⟩
  rw [shown_realize, toList_display, map_name_head_forPlatform, Option.some_inj]
  cases isStaged : path.isStaged with
  | false =>
      simp
  | true =>
      cases supports : platform.supportsStaging with
      | true =>
          simp
      | false =>
          refine iff_of_false (fun same => ?_) (by simp)
          have shorter :=
            length_laidOut_lt_cons "DESTDIR" (path.rootNames false) path.suffix
          exact absurd (congrArg List.length same) (Nat.ne_of_lt shorter)

example :
    let path := installed .executables "app"
    path.display = "$(DESTDIR)$(bindir)/app" ∧
      (path.realize (.forPlatform .windows)).shown = some "$(bindir)/app".toList := by
  decide +kernel

end Path

end BuildGraph
