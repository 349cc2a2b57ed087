import BuildGraph.Fragment
import BuildGraph.Ninja.Escape
import BuildGraph.Ninja.Output
import BuildGraph.Shell.Word

namespace BuildGraph.Ninja

/-!
# Writing fragments

A fragment is escaped for its position in the build file and, where a shell reads it,
quoted for the shell.  Writing also tells whether quotes were needed; a path takes
this from all of its parts and is then quoted as a whole.
-/

/-- Escape text for its position and write it. -/
def writeEscaped (position : Position) (text : List Char) : Output Unit :=
  match escape position text with
  | .ok escaped => Output.write escaped
  | .error illegal => Output.stop (.illegalNewline illegal)

/-- Plain text as it goes into its position, and whether the shell needs quotes. -/
def quoteFor
    (position : Position)
    (quoting : Quoting)
    (text : List Char) :
    List Char × Bool :=
  match position, quoting with
  | .shell, .quote => Shell.quoteInfo text
  | .shell, .escape => Shell.escape text
  | _, _ => (text, false)

/-- Write one leaf, and tell whether it needs quotes. -/
def writeLeaf
    (position : Position)
    (quoting : Quoting) :
    Leaf →
    Output Bool
  | .literal text => do
      Output.require (Text.checkSingleLine text.toList)
      Output.write text.toList
      return true
  | .shellLiteral text => do
      writeEscaped position text.toList
      return true
  | .plain text => do
      let (quoted, needsQuotes) := quoteFor position quoting text.toList
      writeEscaped position quoted
      return needsQuotes

/-- Write leaves one after the other, and tell whether one of them needs quotes. -/
def writeLeaves
    (position : Position)
    (quoting : Quoting) :
    List Leaf →
    Output Bool
  | [] => return false
  | leaf :: rest => do
      let first ← writeLeaf position quoting leaf
      let others ← writeLeaves position quoting rest
      return first || others

/-- Write a path: its parts are escaped one by one and quoted together. -/
def writePath
    (target : Target)
    (position : Position)
    (path : Path) :
    Output Bool :=
  let inner := writeLeaves position .escape (path.resolve target.pathVariables)
  match inner.outcome with
  | .ok needsQuotes => do
      Output.write
        (Shell.wrap inner.text (position = .shell && needsQuotes))
      return needsQuotes
  | .error error => Output.stop error

mutual

/-- Write a fragment, and tell whether it needs quotes. -/
def writeFragment
    (target : Target)
    (position : Position)
    (quoting : Quoting) :
    Fragment →
    Output Bool
  | .leaf leaf => writeLeaf position quoting leaf
  | .path path => writePath target position path
  | .concat parts => writeFragments target position quoting parts

/-- Write fragments one after the other, and tell whether one of them needs quotes. -/
def writeFragments
    (target : Target)
    (position : Position)
    (quoting : Quoting) :
    List Fragment →
    Output Bool
  | [] => return false
  | fragment :: rest => do
      let first ← writeFragment target position quoting fragment
      let others ← writeFragments target position quoting rest
      return first || others

end

theorem writeFragments_singleton
    (target : Target)
    (position : Position)
    (quoting : Quoting)
    (fragment : Fragment) :
    writeFragments target position quoting [fragment] =
      writeFragment target position quoting fragment := by
  simp only [writeFragments, Output.bind_eq_andThen, Output.pure_eq_result,
    Output.result_andThen, Bool.or_false]
  exact Output.andThen_result_self _

/-- To write a fragment is to write its parts. -/
theorem writeFragments_parts
    (target : Target)
    (position : Position)
    (quoting : Quoting)
    (fragment : Fragment) :
    writeFragments target position quoting fragment.parts =
      writeFragment target position quoting fragment := by
  cases fragment with
  | leaf | path =>
      exact writeFragments_singleton target position quoting _
  | concat parts =>
      rw [writeFragment, Fragment.parts]

theorem writeFragments_map_leaf
    (target : Target)
    (position : Position)
    (quoting : Quoting)
    (leaves : List Leaf) :
    writeFragments target position quoting (leaves.map .leaf) =
      writeLeaves position quoting leaves := by
  induction leaves with
  | nil =>
      rfl
  | cons leaf rest inductionHypothesis =>
      rw [List.map_cons, writeFragments, writeFragment, inductionHypothesis, writeLeaves]

/-- To write the leaves of a resolved path is to write the fragment that it is resolved to. -/
theorem writeLeaves_resolve
    (target : Target)
    (position : Position)
    (quoting : Quoting)
    (path : Path)
    (pathVariables : PathVariables) :
    writeLeaves position quoting (path.resolve pathVariables) =
      writeFragment target position quoting (path.realize pathVariables) := by
  rw [← writeFragments_map_leaf target, ← Path.parts_realize, writeFragments_parts]

/-- Write fragments with a space between each two, behind a lead when there are any. -/
def writeEach
    (target : Target)
    (position : Position)
    (lead : List Char)
    (fragments : List Fragment) :
    Output Unit :=
  match fragments with
  | [] => return ()
  | fragments => do
      Output.write lead
      Output.separated [' ']
        (fun fragment => do
          let _ ← writeFragment target position .quote fragment)
        fragments

end BuildGraph.Ninja
