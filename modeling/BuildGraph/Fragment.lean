import BuildGraph.Target

namespace BuildGraph

/-!
# Fragments

A fragment is a piece of text together with how it has to be escaped.  Escaping is
left until the fragment is written, because the same fragment reads differently as an
output, as an input and inside a command.
-/

/-- Text that is not taken apart any further, and how it is escaped. -/
inductive Leaf where
  /-- Written as it is. -/
  | literal (text : String)
  /-- Escaped for the build file only; the shell sees it as it is. -/
  | shellLiteral (text : String)
  /-- Escaped for the build file, and for the shell where one reads it. -/
  | plain (text : String)
  deriving Repr, DecidableEq

/-- The text of a leaf before any escaping. -/
def Leaf.text : Leaf → String
  | .literal text | .shellLiteral text | .plain text => text

/-- A piece of text with deferred escaping. -/
inductive Fragment where
  | leaf (leaf : Leaf)
  | path (path : Path)
  | concat (parts : List Fragment)
  deriving Repr

namespace Fragment

/-- Text written as it is. -/
abbrev literal (text : String) : Fragment := .leaf (.literal text)

/-- A shell operator, or text already quoted for the shell. -/
abbrev shellLiteral (text : String) : Fragment := .leaf (.shellLiteral text)

/-- Ordinary text. -/
abbrev plain (text : String) : Fragment := .leaf (.plain text)

mutual

/-- Whether two fragments are the same. -/
def decideEqual : (first second : Fragment) → Decidable (first = second)
  | .leaf first, .leaf second =>
      if same : first = second then
        isTrue (congrArg Fragment.leaf same)
      else
        isFalse fun equal => same (Fragment.leaf.inj equal)
  | .path first, .path second =>
      if same : first = second then
        isTrue (congrArg Fragment.path same)
      else
        isFalse fun equal => same (Fragment.path.inj equal)
  | .concat first, .concat second =>
      match decideEqualLists first second with
      | isTrue same => isTrue (congrArg Fragment.concat same)
      | isFalse different =>
          isFalse fun equal => different (Fragment.concat.inj equal)
  | .leaf _, .path _ | .leaf _, .concat _
  | .path _, .leaf _ | .path _, .concat _
  | .concat _, .leaf _ | .concat _, .path _ => isFalse nofun

/-- Whether two lists of fragments are the same. -/
def decideEqualLists : (first second : List Fragment) → Decidable (first = second)
  | [], [] => isTrue rfl
  | [], _ :: _ | _ :: _, [] => isFalse nofun
  | first :: restOfFirst, second :: restOfSecond =>
      match decideEqual first second, decideEqualLists restOfFirst restOfSecond with
      | isTrue same, isTrue sameRest =>
          isTrue (by rw [same, sameRest])
      | isFalse different, _ =>
          isFalse fun equal => different (List.cons.inj equal).1
      | _, isFalse different =>
          isFalse fun equal => different (List.cons.inj equal).2

end

instance : DecidableEq Fragment := decideEqual

/-- The parts of a concatenation, and any other fragment as its own only part. -/
def parts : Fragment → List Fragment
  | .concat pieces => pieces
  | fragment => [fragment]

/-- Concatenate fragments, taking apart the concatenations among them. -/
def append (fragments : List Fragment) : Fragment :=
  .concat (fragments.flatMap parts)

/-- Concatenate fragments with plain text between each two, as they are. -/
def join (delimiter : String) (fragments : List Fragment) : Fragment :=
  .concat (fragments.intersperse (.plain delimiter))

mutual

/-- Reject a fragment with a line break in it, naming the first such text. -/
def check : Fragment → Except Text.IllegalNewline Unit
  | .leaf piece => Text.checkSingleLine piece.text.toList
  | .path place => place.check
  | .concat pieces => checkAll pieces

/-- Reject fragments with a line break in one of them. -/
def checkAll : List Fragment → Except Text.IllegalNewline Unit
  | [] => .ok ()
  | fragment :: rest => do
      fragment.check
      checkAll rest

end

mutual

/-- The unescaped text for a reader, with symbolic paths. -/
def display : Fragment → String
  | .leaf piece => piece.text
  | .path place => place.display
  | .concat pieces => displayAll pieces

/-- The unescaped texts of several fragments, one after the other. -/
def displayAll : List Fragment → String
  | [] => ""
  | fragment :: rest => fragment.display ++ displayAll rest

end

mutual

/-- The leaves of a fragment from left to right; a path has none until it is resolved. -/
def leaves : Fragment → List Leaf
  | .leaf piece => [piece]
  | .path _ => []
  | .concat pieces => leavesOf pieces

/-- The leaves of several fragments, one after the other. -/
def leavesOf : List Fragment → List Leaf
  | [] => []
  | fragment :: rest => fragment.leaves ++ leavesOf rest

end

theorem leavesOf_append
    (first second : List Fragment) :
    leavesOf (first ++ second) = leavesOf first ++ leavesOf second := by
  induction first with
  | nil =>
      rfl
  | cons fragment rest inductionHypothesis =>
      rw [List.cons_append, leavesOf, leavesOf, inductionHypothesis, List.append_assoc]

end Fragment

/-- The reference to a variable as a fragment. -/
def Variable.use (var : Variable) : Fragment :=
  .literal var.reference

theorem Fragment.leavesOf_map_use
    (vars : List Variable) :
    leavesOf (vars.map Variable.use) = vars.map fun var => .literal var.reference := by
  induction vars with
  | nil =>
      rfl
  | cons var others inductionHypothesis =>
      exact congrArg (Leaf.literal var.reference :: ·) inductionHypothesis

namespace Path

/-- The variables that a path starts with. -/
def head (path : Path) (pathVariables : PathVariables) : List Variable :=
  (if path.isStaged then pathVariables.staging.toList else []) ++
    (pathVariables.get path.root).toList

/-- The suffix of a path as text behind references: behind a slash, unless it has one. -/
def behindHead (path : Path) : List Fragment :=
  if path.suffix = "" then []
  else if path.suffix.toList.head? = some '/' then [.plain path.suffix]
  else [.plain "/", .plain path.suffix]

/--
A path as text and references to variables.

Roots with a variable become a reference, followed by the suffix behind a slash.
Roots without one leave only the suffix, or `.` when that is empty.
-/
def realize (path : Path) (pathVariables : PathVariables) : Fragment :=
  match path.head pathVariables with
  | [] => .plain (if path.suffix = "" then "." else path.suffix)
  | head => .concat (head.map Variable.use ++ path.behindHead)

/-- The leaves of a path once it is resolved. -/
def resolve (path : Path) (pathVariables : PathVariables) : List Leaf :=
  (path.realize pathVariables).leaves

/-- A resolved path has nothing but leaves for parts. -/
theorem parts_realize
    (path : Path)
    (pathVariables : PathVariables) :
    (path.realize pathVariables).parts = (path.resolve pathVariables).map .leaf := by
  have suffix : (Fragment.leavesOf path.behindHead).map .leaf = path.behindHead := by
    unfold behindHead
    split
    · rfl
    · split <;> rfl
  unfold resolve realize
  split
  · rfl
  · rw [Fragment.leaves, Fragment.leavesOf_append, Fragment.leavesOf_map_use, List.map_append,
      List.map_map, suffix]
    rfl

end Path

end BuildGraph
