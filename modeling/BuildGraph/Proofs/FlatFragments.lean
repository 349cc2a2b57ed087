import BuildGraph.Proofs.Streaming
import BuildGraph.Proofs.Written

namespace BuildGraph

/-!
# Concatenations within concatenations

A fragment can be put together from parts that are put together themselves.  Nobody can tell
how: with all parts in one list the same text is written, in the same pieces and up to the same
error, and the fragment is checked, quoted and displayed as before.  All of these read a
concatenation part by part, and it makes no difference where a row of parts is cut.
-/

/-! ## Flat fragments -/

namespace Fragment

mutual

/-- The parts of a fragment that are no concatenations, in order. -/
def flatParts : Fragment → List Fragment
  | .leaf piece => [.leaf piece]
  | .path place => [.path place]
  | .concat pieces => flatPartsOf pieces

/-- The parts of several fragments that are no concatenations, in order. -/
def flatPartsOf : List Fragment → List Fragment
  | [] => []
  | fragment :: rest => fragment.flatParts ++ flatPartsOf rest

end

/-- A fragment with every concatenation within a concatenation replaced by its parts. -/
def flattened : Fragment → Fragment
  | .concat pieces => .concat (flatPartsOf pieces)
  | fragment => fragment

mutual

theorem concat_notMem_flatParts
    (pieces : List Fragment) :
    ∀ fragment : Fragment, .concat pieces ∉ fragment.flatParts
  | .leaf _ => by
      simp [flatParts]
  | .path _ => by
      simp [flatParts]
  | .concat parts => by
      rw [flatParts]
      exact concat_notMem_flatPartsOf pieces parts

theorem concat_notMem_flatPartsOf
    (pieces : List Fragment) :
    ∀ fragments : List Fragment, .concat pieces ∉ flatPartsOf fragments
  | [] => List.not_mem_nil
  | fragment :: rest => by
      rw [flatPartsOf, List.mem_append, not_or]
      exact ⟨concat_notMem_flatParts pieces fragment, concat_notMem_flatPartsOf pieces rest⟩

end

/-- No part of a flattened fragment is a concatenation. -/
theorem concat_notMem_parts_flattened
    (pieces : List Fragment)
    (fragment : Fragment) :
    .concat pieces ∉ fragment.flattened.parts := by
  cases fragment with
  | leaf piece =>
      simp [flattened, parts]
  | path place =>
      simp [flattened, parts]
  | concat nested =>
      exact concat_notMem_flatPartsOf pieces nested

/--
A concatenation is read part by part, and what is read of the parts is joined.  Joining is
associative, and where there are no parts, what is read makes no difference when it is joined.
-/
structure ReadsParts
    (read : Fragment → Result)
    (readAll : List Fragment → Result)
    (join : Result → Result → Result)
    (nothing : Result) :
    Prop where
  concat : ∀ pieces, read (.concat pieces) = readAll pieces
  nil : readAll [] = nothing
  cons : ∀ fragment rest, readAll (fragment :: rest) = join (read fragment) (readAll rest)
  join_assoc : ∀ first second third,
    join (join first second) third = join first (join second third)
  nothing_join : ∀ result, join nothing result = result
  join_nothing : ∀ result, join result nothing = result

namespace ReadsParts

variable
  {read : Fragment → Result}
  {readAll : List Fragment → Result}
  {join : Result → Result → Result}
  {nothing : Result}

theorem readAll_singleton
    (reads : ReadsParts read readAll join nothing)
    (fragment : Fragment) :
    readAll [fragment] = read fragment := by
  rw [reads.cons, reads.nil, reads.join_nothing]

theorem readAll_append
    (reads : ReadsParts read readAll join nothing)
    (first second : List Fragment) :
    readAll (first ++ second) = join (readAll first) (readAll second) := by
  induction first with
  | nil =>
      rw [List.nil_append, reads.nil, reads.nothing_join]
  | cons fragment rest inductionHypothesis =>
      rw [List.cons_append, reads.cons, inductionHypothesis, reads.cons, reads.join_assoc]

mutual

theorem readAll_flatParts
    (reads : ReadsParts read readAll join nothing) :
    ∀ fragment : Fragment, readAll fragment.flatParts = read fragment
  | .leaf piece => reads.readAll_singleton (.leaf piece)
  | .path place => reads.readAll_singleton (.path place)
  | .concat pieces => by
      rw [flatParts, reads.concat]
      exact readAll_flatPartsOf reads pieces

theorem readAll_flatPartsOf
    (reads : ReadsParts read readAll join nothing) :
    ∀ fragments : List Fragment, readAll (flatPartsOf fragments) = readAll fragments
  | [] => rfl
  | fragment :: rest => by
      rw [flatPartsOf, reads.readAll_append, readAll_flatParts reads fragment,
        readAll_flatPartsOf reads rest, reads.cons]

end

/-- A fragment is read as it is when it is flat. -/
theorem read_flattened
    (reads : ReadsParts read readAll join nothing)
    (fragment : Fragment) :
    read fragment.flattened = read fragment := by
  cases fragment with
  | leaf piece =>
      rfl
  | path place =>
      rfl
  | concat pieces =>
      rw [flattened, reads.concat, reads.concat]
      exact reads.readAll_flatPartsOf pieces

theorem readAll_parts
    (reads : ReadsParts read readAll join nothing)
    (fragment : Fragment) :
    readAll fragment.parts = read fragment := by
  cases fragment with
  | leaf piece =>
      exact reads.readAll_singleton (.leaf piece)
  | path place =>
      exact reads.readAll_singleton (.path place)
  | concat pieces =>
      exact (reads.concat pieces).symm

/-- Fragments are read in one list of parts as they are read one by one. -/
theorem read_append
    (reads : ReadsParts read readAll join nothing)
    (fragments : List Fragment) :
    read (append fragments) = read (.concat fragments) := by
  rw [append, reads.concat, reads.concat]
  induction fragments with
  | nil =>
      rfl
  | cons fragment rest inductionHypothesis =>
      rw [List.flatMap_cons, reads.readAll_append, reads.readAll_parts, inductionHypothesis,
        reads.cons]

end ReadsParts

/-! ## What reads fragments part by part -/

theorem readsParts_check :
    ReadsParts check checkAll (fun first second => first >>= fun _ => second) (.ok ()) where
  concat := fun _ => by
    rw [check]
  nil := rfl
  cons := fun _ _ => rfl
  join_assoc := fun first _ _ => by
    cases first <;> rfl
  nothing_join := fun _ => rfl
  join_nothing := fun result => by
    cases result <;> rfl

theorem readsParts_display :
    ReadsParts display displayAll (· ++ ·) "" where
  concat := fun _ => by
    rw [display]
  nil := rfl
  cons := fun _ _ => rfl
  join_assoc := fun _ _ _ => String.append_assoc
  nothing_join := fun _ => String.empty_append
  join_nothing := fun _ => String.append_empty

end Fragment

namespace Ninja

/-- Do one thing after the other, and tell whether one of them says yes. -/
def eitherInTurn [Monad m] (first second : m Bool) : m Bool := do
  let one ← first
  let other ← second
  return one || other

/-- What goes on part by part in a monad reads fragments part by part. -/
theorem readsParts_of_eitherInTurn
    [Monad m] [LawfulMonad m]
    {read : Fragment → m Bool}
    {readAll : List Fragment → m Bool}
    (concat : ∀ pieces, read (.concat pieces) = readAll pieces)
    (nil : readAll [] = pure false)
    (cons :
      ∀ fragment rest,
        readAll (fragment :: rest) = eitherInTurn (read fragment) (readAll rest)) :
    Fragment.ReadsParts read readAll eitherInTurn (pure false) where
  concat := concat
  nil := nil
  cons := cons
  join_assoc := fun first second third => by
    simp only [eitherInTurn, bind_assoc, pure_bind, Bool.or_assoc]
  nothing_join := fun result => by
    simp only [eitherInTurn, pure_bind, Bool.false_or, bind_pure]
  join_nothing := fun result => by
    simp only [eitherInTurn, pure_bind, Bool.or_false, bind_pure]

theorem readsParts_writeFragment
    (target : Target)
    (position : Position)
    (quoting : Quoting) :
    Fragment.ReadsParts
      (writeFragment target position quoting)
      (writeFragments target position quoting)
      eitherInTurn
      (pure false) :=
  readsParts_of_eitherInTurn
    (fun _ => by rw [writeFragment])
    rfl
    (fun _ _ => rfl)

/-! ## Places for text of any kind -/

/--
What becomes of a piece of text that is handed over: whether it is taken, and the state
afterwards.  Other than with a receiver it may matter how a text is cut into pieces.
-/
abbrev Taker (State : Type) : Type :=
  List Char → State → Bool × State

namespace Taker

/-- Hand over the text of an output in one piece; an output that stopped hands over nothing. -/
def handOver
    (taker : Taker State)
    (output : Output Result) :
    Emission State Result :=
  match output.outcome with
  | .error error => throw (.render error)
  | .ok value => fun state =>
      match taker output.text state with
      | (true, later) => (.ok value, later)
      | (false, later) => (.error .refused, later)

mutual

/-- Hand over a fragment, a leaf or a path at a time, and tell whether it needs quotes. -/
def emitFragment
    (taker : Taker State)
    (target : Target)
    (position : Position)
    (quoting : Quoting) :
    Fragment →
    Emission State Bool
  | .leaf leaf => taker.handOver (writeLeaf position quoting leaf)
  | .path path => taker.handOver (writePath target position path)
  | .concat parts => taker.emitFragments target position quoting parts

/-- Hand over fragments one by one, and tell whether one of them needs quotes. -/
def emitFragments
    (taker : Taker State)
    (target : Target)
    (position : Position)
    (quoting : Quoting) :
    List Fragment →
    Emission State Bool
  | [] => return false
  | fragment :: rest => do
      let first ← taker.emitFragment target position quoting fragment
      let others ← taker.emitFragments target position quoting rest
      return first || others

end

theorem readsParts_emitFragment
    (taker : Taker State)
    (target : Target)
    (position : Position)
    (quoting : Quoting) :
    Fragment.ReadsParts
      (taker.emitFragment target position quoting)
      (taker.emitFragments target position quoting)
      eitherInTurn
      (pure false) :=
  readsParts_of_eitherInTurn
    (fun _ => by rw [emitFragment])
    rfl
    (fun _ _ => rfl)

end Taker

/-- Nothing is written in front of a stop. -/
def Output.StopsSilently (output : Output Result) : Prop :=
  ∀ error, output.outcome = .error error → output.text = []

theorem stopsSilently_writeEscaped_andThen
    (position : Position)
    (text : List Char)
    (value : Result) :
    ((writeEscaped position text).andThen fun _ => Output.result value).StopsSilently := by
  intro error stopped
  by_cases broken : '\n' ∈ text
  · simp [writeEscaped, escape, Text.checkSingleLine, broken, Except.map, Output.stop,
      Output.andThen]
  · rw [writeEscaped_eq_write broken] at stopped
    cases stopped

/-- A leaf is written whole or not at all. -/
theorem stopsSilently_writeLeaf
    (position : Position)
    (quoting : Quoting)
    (leaf : Leaf) :
    (writeLeaf position quoting leaf).StopsSilently := by
  cases leaf with
  | literal text =>
      intro error stopped
      rw [writeLeaf] at stopped ⊢
      cases checked : Text.checkSingleLine text.toList with
      | error illegal =>
          rfl
      | ok _ =>
          rw [checked] at stopped
          cases stopped
  | shellLiteral text =>
      exact stopsSilently_writeEscaped_andThen position text.toList true
  | plain text =>
      exact stopsSilently_writeEscaped_andThen position _ _

/-- A path is put together before any of it is written. -/
theorem stopsSilently_writePath
    (target : Target)
    (position : Position)
    (path : Path) :
    (writePath target position path).StopsSilently := by
  intro error stopped
  rw [writePath] at stopped ⊢
  cases parts :
      (writeLeaves position .escape (path.resolve target.pathVariables)).outcome with
  | error stop =>
      rfl
  | ok needsQuotes =>
      simp only [parts] at stopped
      cases stopped

/-- What stops silently is handed over to a receiver as to anything else. -/
theorem handOver_eq_of_stopsSilently
    {output : Output Result}
    (silent : output.StopsSilently)
    (receiver : Receiver State) :
    receiver.handOver output = Taker.handOver receiver.put output := by
  funext state
  rw [Receiver.handOver_apply, Taker.handOver]
  cases outcome : output.outcome with
  | error error =>
      rw [silent error outcome, receiver.put_nil]
      rfl
  | ok value =>
      rfl

mutual

/-- Whatever a fragment is handed over to, a receiver is one case of it. -/
theorem emitFragment_eq_taker
    (receiver : Receiver State)
    (target : Target)
    (position : Position)
    (quoting : Quoting) :
    ∀ fragment : Fragment,
      emitFragment receiver target position quoting fragment =
        Taker.emitFragment receiver.put target position quoting fragment
  | .leaf leaf => by
      rw [emitFragment, Taker.emitFragment]
      exact handOver_eq_of_stopsSilently (stopsSilently_writeLeaf position quoting leaf) receiver
  | .path path => by
      rw [emitFragment, Taker.emitFragment]
      exact handOver_eq_of_stopsSilently (stopsSilently_writePath target position path) receiver
  | .concat parts => by
      rw [emitFragment, Taker.emitFragment]
      exact emitFragments_eq_taker receiver target position quoting parts

theorem emitFragments_eq_taker
    (receiver : Receiver State)
    (target : Target)
    (position : Position)
    (quoting : Quoting) :
    ∀ fragments : List Fragment,
      emitFragments receiver target position quoting fragments =
        Taker.emitFragments receiver.put target position quoting fragments
  | [] => rfl
  | fragment :: rest => by
      rw [emitFragments, Taker.emitFragments,
        emitFragment_eq_taker receiver target position quoting fragment,
        emitFragments_eq_taker receiver target position quoting rest]

end

/--
Two fragments that nobody can tell apart.  In every position and with every quoting the same
text is written of both, up to the same error or with the same report about quotes, and they
are handed over in the same pieces, whatever becomes of each piece.  Both are accepted, or
rejected for the same text, and both are displayed alike.
-/
structure Alike (first second : Fragment) : Prop where
  writes : ∀ target position quoting,
    writeFragment target position quoting first =
      writeFragment target position quoting second
  handsOver : ∀ {State : Type} (taker : Taker State) target position quoting,
    taker.emitFragment target position quoting first =
      taker.emitFragment target position quoting second
  emits : ∀ {State : Type} (receiver : Receiver State) target position quoting,
    emitFragment receiver target position quoting first =
      emitFragment receiver target position quoting second
  checks : first.check = second.check
  displays : first.display = second.display

/-- Fragments are alike if nothing that reads part by part tells them apart. -/
theorem alike_of_readsParts
    {first second : Fragment}
    (same :
      ∀ {Result : Type} {read : Fragment → Result} {readAll join nothing},
        Fragment.ReadsParts read readAll join nothing → read first = read second) :
    Alike first second where
  writes := fun target position quoting =>
    same (readsParts_writeFragment target position quoting)
  handsOver := fun taker target position quoting =>
    same (taker.readsParts_emitFragment target position quoting)
  emits := fun receiver target position quoting => by
    rw [emitFragment_eq_taker, emitFragment_eq_taker]
    exact same (Taker.readsParts_emitFragment receiver.put target position quoting)
  checks := same Fragment.readsParts_check
  displays := same Fragment.readsParts_display

/--
Nobody can tell a fragment from the same fragment without concatenations within concatenations.
So fragments can be concatenated as they are or with the concatenations among them taken apart.
-/
theorem alike_flattened
    (fragment : Fragment)
    (fragments : List Fragment) :
    Alike fragment.flattened fragment ∧
      (∀ pieces, .concat pieces ∉ fragment.flattened.parts) ∧
      Alike (Fragment.append fragments) (.concat fragments) :=
  ⟨alike_of_readsParts fun reads => reads.read_flattened fragment,
    fun pieces => fragment.concat_notMem_parts_flattened pieces,
    alike_of_readsParts fun reads => reads.read_append fragments⟩

example :
    (Fragment.concat
      [.plain "a", .concat [.concat [], .concat [.literal "b", .plain "c"]]]).flattened =
      .concat [.plain "a", .literal "b", .plain "c"] :=
  rfl

end Ninja

end BuildGraph
