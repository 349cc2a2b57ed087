import BuildGraph.File.Declare
import BuildGraph.Proofs.Pieces
import BuildGraph.Proofs.Written

namespace BuildGraph

/-!
# What conversion does

Conversion hands the tools of a thing to the interning function one after the other, in
the order in which `tools` lists them, and stops at the first refusal.  A conversion that
comes to its end leaves no tool behind, and none brings a line break in.
-/

/-- Intern tools one after the other, up to the first one that is refused. -/
def internAll
    (intern : Interning State Refusal) :
    List Tool →
    State →
    Option Refusal × State
  | [], state => (none, state)
  | tool :: rest, state =>
      match intern state tool with
      | (.ok _, later) => internAll intern rest later
      | (.error failure, later) => (some failure, later)

/-- Tools of two lists are interned one list after the other. -/
theorem internAll_append
    (intern : Interning State Refusal)
    (first second : List Tool)
    (state : State) :
    internAll intern (first ++ second) state =
      match internAll intern first state with
      | (none, later) => internAll intern second later
      | (some failure, later) => (some failure, later) := by
  induction first generalizing state with
  | nil =>
      rfl
  | cons tool rest inductionHypothesis =>
      rw [List.cons_append, internAll, internAll]
      rcases intern state tool with ⟨refusal | var, later⟩
      · rfl
      · exact inductionHypothesis later

/--
What there is to say about a conversion: how it ended, that it left no tool if it was not
stopped, and that it brought in no line break.
-/
structure Conversion.Describes
    (intern : Interning State Refusal)
    (tools : Converted → List Tool)
    (check : Converted → Except Text.IllegalNewline Unit)
    (original : Converted)
    (state : State)
    (conversion : Conversion State Refusal Converted) :
    Prop where
  ending :
    (conversion.failure, conversion.state) =
      internAll intern (tools original) state
  toolless : conversion.failure = none → tools conversion.converted = []
  accepted : check original = .ok () → check conversion.converted = .ok ()

namespace Conversion.Describes

variable
  {State Refusal First Second : Type}
  {intern : Interning State Refusal}
  {tools : First → List Tool}
  {check : First → Except Text.IllegalNewline Unit}
  {otherTools : Second → List Tool}
  {otherCheck : Second → Except Text.IllegalNewline Unit}

/-- A thing around the converted one has the same tools and texts. -/
theorem map
    {original : First}
    {state : State}
    {conversion : Conversion State Refusal First}
    (describes : conversion.Describes intern tools check original state)
    {change : First → Second}
    (sameTools : ∀ item, otherTools (change item) = tools item)
    (sameCheck : ∀ item, otherCheck (change item) = check item) :
    (conversion.map change).Describes intern otherTools otherCheck
      (change original) state where
  ending := by
    rw [sameTools]
    exact describes.ending
  toolless := by
    intro ended
    exact (sameTools _).trans (describes.toolless ended)
  accepted := by
    intro accepted
    rw [sameCheck] at accepted
    exact (sameCheck _).trans (describes.accepted accepted)

/-- A thing without tools is converted to itself. -/
theorem unchanged
    {original : First}
    (noTools : tools original = [])
    (state : State) :
    Conversion.Describes intern tools check original state
      { converted := original, state, failure := none } where
  ending := by
    rw [noTools]
    rfl
  toolless := fun _ => noTools
  accepted := id

/--
A thing made of two is converted part by part, and the second part only if the first one
came to its end.  Beside the two parts the thing may have surroundings that stay.
-/
theorem both
    (surroundings : Prop)
    {Whole : Type}
    {wholeTools : Whole → List Tool}
    {wholeCheck : Whole → Except Text.IllegalNewline Unit}
    {build : First → Second → Whole}
    (sameTools :
      ∀ first second,
        wholeTools (build first second) = tools first ++ otherTools second)
    (sameCheck :
      ∀ first second,
        wholeCheck (build first second) = .ok () ↔
          surroundings ∧ check first = .ok () ∧ otherCheck second = .ok ())
    {first : First}
    {second : Second}
    {state : State}
    {head : Conversion State Refusal First}
    (describesHead : head.Describes intern tools check first state)
    {convertRest : State → Conversion State Refusal Second}
    (describesRest :
      ∀ later,
        (convertRest later).Describes intern otherTools otherCheck second later) :
    Conversion.Describes intern wholeTools wholeCheck (build first second) state
      (match head.failure with
      | some _ => head.map (build · second)
      | none => (convertRest head.state).map (build head.converted)) := by
  have endingHead := describesHead.ending
  cases stopped : head.failure with
  | some failure =>
      -- The second part keeps its tools, but then the conversion did not come to its end.
      rw [stopped] at endingHead
      refine ⟨?_, ?_, ?_⟩
      · rw [sameTools, internAll_append, ← endingHead]
        exact congrArg (·, head.state) stopped
      · intro ended
        exact absurd (stopped.symm.trans ended) (by simp)
      · intro accepted
        rw [sameCheck] at accepted
        exact (sameCheck _ _).mpr
          ⟨accepted.1, describesHead.accepted accepted.2.1, accepted.2.2⟩
  | none =>
      rw [stopped] at endingHead
      have rest := describesRest head.state
      refine ⟨?_, ?_, ?_⟩
      · rw [sameTools, internAll_append, ← endingHead]
        exact rest.ending
      · intro ended
        exact (sameTools _ _).trans
          (by rw [describesHead.toolless stopped, rest.toolless ended]; rfl)
      · intro accepted
        rw [sameCheck] at accepted
        exact (sameCheck _ _).mpr
          ⟨accepted.1, describesHead.accepted accepted.2.1,
            rest.accepted accepted.2.2⟩

end Conversion.Describes

/-- What the conversion of arguments does. -/
theorem Argument.convertAll_describes
    (intern : Interning State Refusal)
    (arguments : List Argument)
    (state : State) :
    (Argument.convertAll intern arguments state).Describes intern
      Argument.toolsOf Argument.checkAll arguments state := by
  induction arguments generalizing state with
  | nil =>
      exact .unchanged rfl state
  | cons argument rest inductionHypothesis =>
      have consCheck :
          ∀ (first : Argument) (others : List Argument),
            Argument.checkAll (first :: others) = .ok () ↔
              first.check = .ok () ∧ Argument.checkAll others = .ok () :=
        fun _ _ => by rw [Argument.checkAll, bind_eq_ok_iff]
      cases argument with
      | text fragment =>
          have restDescribes := inductionHypothesis state
          refine ⟨restDescribes.ending, restDescribes.toolless, ?_⟩
          intro accepted
          rw [consCheck] at accepted
          exact (consCheck _ _).mpr
            ⟨accepted.1, restDescribes.accepted accepted.2⟩
      | tool name invocation =>
          rw [Argument.convertAll]
          rcases interned : intern state { name, invocation } with
            ⟨refusal | var, later⟩
          · refine ⟨?_, by simp, id⟩
            simp [Argument.toolsOf, internAll, interned]
          · have restDescribes := inductionHypothesis later
            refine ⟨?_, restDescribes.toolless, ?_⟩
            · rw [Argument.toolsOf, internAll, interned]
              exact restDescribes.ending
            · intro accepted
              rw [consCheck] at accepted
              exact (consCheck _ _).mpr
                ⟨var.check_use, restDescribes.accepted accepted.2⟩

mutual

theorem Line.convert_describes
    (intern : Interning State Refusal) :
    ∀ (line : Line) (state : State),
      (line.convert intern state).Describes intern
        Line.tools Line.check line state
  | .arguments arguments, state => by
      rw [Line.convert]
      exact (Argument.convertAll_describes intern arguments state).map
        (fun _ => by rw [Line.tools]) (fun _ => by rw [Line.check])
  | .shellList arguments, state => by
      rw [Line.convert]
      exact (Argument.convertAll_describes intern arguments state).map
        (fun _ => by rw [Line.tools]) (fun _ => by rw [Line.check])
  | .script script, state => by
      rw [Line.convert]
      exact .unchanged (by rw [Line.tools]) state
  | .nested commands, state => by
      rw [Line.convert]
      exact (commands.convert_describes intern state).map
        (fun _ => by rw [Line.tools]) (fun _ => by rw [Line.check])

theorem Line.convertAll_describes
    (intern : Interning State Refusal) :
    ∀ (lines : List Line) (state : State),
      (Line.convertAll intern lines state).Describes intern
        Line.toolsOf Line.checkAll lines state
  | [], state => by
      rw [Line.convertAll]
      exact .unchanged (by rw [Line.toolsOf]) state
  | line :: rest, state => by
      rw [Line.convertAll]
      exact .both True (fun _ _ => by rw [Line.toolsOf])
        (fun _ _ => by rw [Line.checkAll, bind_eq_ok_iff, true_and])
        (line.convert_describes intern state)
        (Line.convertAll_describes intern rest)

theorem Commands.convert_describes
    (intern : Interning State Refusal) :
    ∀ (commands : Commands) (state : State),
      (commands.convert intern state).Describes intern
        Commands.tools Commands.check commands state
  | .mk environment first rest, state => by
      rw [Commands.convert]
      exact .both (checkBindings environment.entries = .ok ())
        (fun _ _ => by rw [Commands.tools])
        (fun _ _ => by rw [Commands.check, bind_eq_ok_iff, bind_eq_ok_iff])
        (first.convert_describes intern state)
        (Line.convertAll_describes intern rest)

end

theorem Value.convert_describes
    (intern : Interning State Refusal)
    (value : Value)
    (state : State) :
    (value.convert intern state).Describes intern
      Value.tools Value.check value state := by
  cases value with
  | text fragment =>
      exact .unchanged rfl state
  | words arguments =>
      exact (Argument.convertAll_describes intern arguments state).map
        (fun _ => rfl) (fun _ => by rw [Value.check])
  | sequence commands =>
      exact (commands.convert_describes intern state).map
        (fun _ => rfl) (fun _ => by rw [Value.check])

/-- The tools of entries, in order. -/
def toolsOfEntries (entries : List (α × Value)) : List Tool :=
  entries.flatMap fun entry => entry.2.tools

/-- Reject entries with a line break in one of their values. -/
def checkEntries : List (α × Value) → Except Text.IllegalNewline Unit
  | [] => .ok ()
  | entry :: rest => do
      entry.2.check
      checkEntries rest

theorem checkEntries_eq_ok_iff
    {entries : List (α × Value)} :
    checkEntries entries = .ok () ↔
      ∀ entry ∈ entries, entry.2.check = .ok () := by
  induction entries with
  | nil =>
      simp [checkEntries]
  | cons entry rest inductionHypothesis =>
      rw [checkEntries, bind_eq_ok_iff, inductionHypothesis,
        List.forall_mem_cons]

theorem convertEntries_describes
    (intern : Interning State Refusal)
    (entries : List (α × Value))
    (state : State) :
    (BuildFile.convertEntries intern entries state).Describes intern
      toolsOfEntries checkEntries entries state := by
  induction entries generalizing state with
  | nil =>
      exact .unchanged rfl state
  | cons entry rest inductionHypothesis =>
      obtain ⟨key, value⟩ := entry
      rw [BuildFile.convertEntries]
      have describesHead :
          ((value.convert intern state).map (key, ·)).Describes intern
            (fun entry : α × Value => entry.2.tools) (fun entry => entry.2.check)
            (key, value) state :=
        (value.convert_describes intern state).map (fun _ => rfl) (fun _ => rfl)
      have consTools :
          ∀ (first : α × Value) (others : List (α × Value)),
            toolsOfEntries (first :: others) =
              first.2.tools ++ toolsOfEntries others :=
        fun _ _ => rfl
      have consCheck :
          ∀ (first : α × Value) (others : List (α × Value)),
            checkEntries (first :: others) = .ok () ↔
              True ∧ first.2.check = .ok () ∧ checkEntries others = .ok () :=
        fun _ _ => by rw [checkEntries, bind_eq_ok_iff, true_and]
      exact .both True consTools consCheck describesHead inductionHypothesis

theorem Argument.mem_toolsOf
    {arguments : List Argument}
    {tool : Tool} :
    tool ∈ Argument.toolsOf arguments ↔
      Argument.tool tool.name tool.invocation ∈ arguments := by
  induction arguments with
  | nil =>
      simp [Argument.toolsOf]
  | cons argument rest inductionHypothesis =>
      cases argument with
      | text fragment =>
          simp [Argument.toolsOf, inductionHypothesis]
      | tool name invocation =>
          rw [Argument.toolsOf, List.mem_cons, inductionHypothesis, List.mem_cons]
          rcases tool with ⟨otherName, otherInvocation⟩
          simp

/-- The tools of a piece, in order. -/
def Piece.tools : Piece → List Tool
  | .binding _ _ | .script _ => []
  | .arguments items => Argument.toolsOf items

mutual

/-- The tools of a line are those of its pieces. -/
theorem Line.tools_eq : ∀ line : Line, line.tools = line.pieces.flatMap Piece.tools
  | .arguments _ | .shellList _ | .script _ => by
      simp [Line.tools, Line.pieces, Piece.tools]
  | .nested commands => by
      rw [Line.tools, Line.pieces]
      exact commands.tools_eq

theorem Line.toolsOf_eq :
    ∀ lines : List Line,
      Line.toolsOf lines = (Line.piecesOf lines).flatMap Piece.tools
  | [] => by
      simp [Line.toolsOf, Line.piecesOf]
  | line :: rest => by
      rw [Line.toolsOf, Line.piecesOf, List.flatMap_append, line.tools_eq,
        Line.toolsOf_eq rest]

theorem Commands.tools_eq :
    ∀ commands : Commands,
      commands.tools = commands.pieces.flatMap Piece.tools
  | .mk environment first rest => by
      have bindings :
          (environment.entries.map fun entry =>
              Piece.binding entry.1 entry.2).flatMap Piece.tools = [] := by
        simp [List.flatMap_map, Piece.tools]
      rw [Commands.tools, Commands.pieces, List.flatMap_append,
        List.flatMap_append, bindings, first.tools_eq, Line.toolsOf_eq rest,
        List.nil_append]

end

/-- The invocation of an accepted tool among arguments is accepted. -/
theorem Argument.check_invocation
    {arguments : List Argument}
    (checked : Argument.checkAll arguments = .ok ())
    {tool : Tool}
    (member : tool ∈ Argument.toolsOf arguments) :
    tool.invocation.check = .ok () := by
  rw [Argument.checkAll_eq_ok_iff] at checked
  have argument := checked _ (Argument.mem_toolsOf.mp member)
  rw [Argument.check, bind_eq_ok_iff] at argument
  exact argument.2

/-- The invocations of all tools of an accepted command are accepted. -/
theorem Commands.check_invocation
    {commands : Commands}
    (checked : commands.check = .ok ())
    {tool : Tool}
    (member : tool ∈ commands.tools) :
    tool.invocation.check = .ok () := by
  rw [Commands.check_eq_ok_iff] at checked
  rw [commands.tools_eq, List.mem_flatMap] at member
  obtain ⟨piece, pieceMember, toolMember⟩ := member
  cases piece with
  | binding _ _ | script _ =>
      simp [Piece.tools] at toolMember
  | arguments items =>
      exact Argument.check_invocation (checked _ pieceMember) toolMember

theorem Value.check_invocation
    {value : Value}
    (checked : value.check = .ok ())
    {tool : Tool}
    (member : tool ∈ value.tools) :
    tool.invocation.check = .ok () := by
  cases value with
  | text fragment =>
      simp [Value.tools] at member
  | words arguments =>
      rw [Value.check] at checked
      exact Argument.check_invocation checked member
  | sequence commands =>
      rw [Value.check] at checked
      exact Commands.check_invocation checked member

/-- A command collapses to itself, or to its only line if that is an argument vector. -/
theorem Commands.toValue_cases
    (commands : Commands) :
    commands.toValue = .sequence commands ∨
      ∃ environment arguments,
        commands = .mk environment (.arguments arguments) [] ∧
          environment.entries = [] ∧
          commands.toValue = .words arguments := by
  unfold Commands.toValue
  by_cases shell : commands.needsShell = true
  · exact .inl (if_pos shell)
  · rw [if_neg shell]
    obtain ⟨environment, first, rest⟩ := commands
    cases first with
    | arguments items =>
        cases rest with
        | nil =>
            refine .inr ⟨environment, items, rfl, ?_, rfl⟩
            simpa [Commands.needsShell] using shell
        | cons line others =>
            exact absurd rfl shell
    | shellList _ | script _ | nested _ =>
        exact .inl rfl

/-- The value that a command collapses to has the command's tools. -/
theorem Commands.tools_toValue
    (commands : Commands) :
    commands.toValue.tools = commands.tools := by
  rcases commands.toValue_cases with same | ⟨environment, arguments, rfl, _, bare⟩
  · rw [same, Value.tools]
  · rw [bare]
    simp [Value.tools, Commands.tools, Line.tools, Line.toolsOf]

/-- The value that a command collapses to is accepted if the command is. -/
theorem Commands.check_toValue
    {commands : Commands}
    (checked : commands.check = .ok ()) :
    commands.toValue.check = .ok () := by
  rcases commands.toValue_cases with same | ⟨environment, arguments, rfl, _, bare⟩
  · rw [same, Value.check, checked]
  · rw [Commands.check, bind_eq_ok_iff, bind_eq_ok_iff, Line.check] at checked
    rw [bare, Value.check, checked.2.1]

end BuildGraph
