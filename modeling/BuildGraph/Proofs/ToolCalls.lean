import BuildGraph.Proofs.Conversion

namespace BuildGraph

/-!
# Calls of the interning function

Conversion asks the interning function for one tool after the other and puts the variables
that it is given in the places of the first tools.  A refusal is the last answer: the refused
tool, those behind it and everything that is no tool stay as they are.
-/

/-- A tool that an interning function was asked for, and the answer that it gave. -/
structure ToolCall (Refusal : Type) where
  tool : Tool
  answer : Except Refusal Variable

/-- The same interning function, which keeps a record of its calls. -/
def recording
    (intern : Interning State Refusal) :
    Interning (State × List (ToolCall Refusal)) Refusal :=
  fun (state, calls) tool =>
    let (answer, later) := intern state tool
    (answer, later, calls ++ [{ tool, answer }])

/-- The variables that calls were answered with, in order. -/
def grantedVariables (calls : List (ToolCall Refusal)) : List Variable :=
  calls.filterMap (·.answer.toOption)

/-- The calls for tools one after the other, up to the first one that is refused. -/
def callsOf (intern : Interning State Refusal) : List Tool → State → List (ToolCall Refusal)
  | [], _ => []
  | tool :: rest, state =>
      match intern state tool with
      | (.ok var, later) => { tool, answer := .ok var } :: callsOf intern rest later
      | (.error refusal, _) => [{ tool, answer := .error refusal }]

/-! ## Variables in the place of tools -/

/-- Arguments with references to the given variables in the place of their first tools. -/
def Argument.withVariables : List Argument → List Variable → List Argument
  | [], _ => []
  | .text fragment :: rest, vars => .text fragment :: withVariables rest vars
  | .tool name invocation :: rest, [] => .tool name invocation :: rest
  | .tool _ _ :: rest, var :: vars => .text var.use :: withVariables rest vars

mutual

/-- A line with references to the given variables in the place of its first tools. -/
def Line.withVariables : Line → List Variable → Line
  | .arguments arguments, vars => .arguments (Argument.withVariables arguments vars)
  | .shellList arguments, vars => .shellList (Argument.withVariables arguments vars)
  | .script script, _ => .script script
  | .nested commands, vars => .nested (commands.withVariables vars)

/-- Lines with references to the given variables in the place of their first tools. -/
def Line.allWithVariables : List Line → List Variable → List Line
  | [], _ => []
  | line :: rest, vars =>
      line.withVariables (vars.take line.tools.length) ::
        Line.allWithVariables rest (vars.drop line.tools.length)

/-- A command with references to the given variables in the place of its first tools. -/
def Commands.withVariables : Commands → List Variable → Commands
  | .mk environment first rest, vars =>
      .mk environment (first.withVariables (vars.take first.tools.length))
        (Line.allWithVariables rest (vars.drop first.tools.length))

end

theorem Argument.withVariables_nil
    (arguments : List Argument) :
    Argument.withVariables arguments [] = arguments := by
  induction arguments with
  | nil =>
      rfl
  | cons argument rest inductionHypothesis =>
      cases argument with
      | text fragment =>
          rw [Argument.withVariables, inductionHypothesis]
      | tool name invocation =>
          rfl

mutual

theorem Line.withVariables_nil : ∀ line : Line, line.withVariables [] = line
  | .arguments arguments => by
      rw [Line.withVariables, Argument.withVariables_nil]
  | .shellList arguments => by
      rw [Line.withVariables, Argument.withVariables_nil]
  | .script script => by
      rw [Line.withVariables]
  | .nested commands => by
      rw [Line.withVariables, commands.withVariables_nil]

theorem Line.allWithVariables_nil :
    ∀ lines : List Line, Line.allWithVariables lines [] = lines
  | [] => by
      rw [Line.allWithVariables]
  | line :: rest => by
      rw [Line.allWithVariables, List.take_nil, List.drop_nil, line.withVariables_nil,
        Line.allWithVariables_nil rest]

theorem Commands.withVariables_nil :
    ∀ commands : Commands, commands.withVariables [] = commands
  | .mk environment first rest => by
      rw [Commands.withVariables, List.take_nil, List.drop_nil, first.withVariables_nil,
        Line.allWithVariables_nil rest]

end

/-- Of two lists the second one loses what the first one is too short for. -/
theorem drop_append_take
    (first second : List Item)
    (given : List Other) :
    (first ++ second).drop given.length =
      first.drop (given.take first.length).length ++
        second.drop (given.drop first.length).length := by
  rw [List.drop_append, List.length_take, List.length_drop]
  congr 1
  rcases Nat.le_total first.length given.length with short | long
  · rw [Nat.min_eq_left short, List.drop_length, List.drop_eq_nil_of_le short]
  · rw [Nat.min_eq_right long]

/-- The tools behind the replaced ones are left. -/
theorem Argument.toolsOf_withVariables
    (arguments : List Argument)
    (vars : List Variable) :
    Argument.toolsOf (Argument.withVariables arguments vars) =
      (Argument.toolsOf arguments).drop vars.length := by
  induction arguments generalizing vars with
  | nil =>
      simp [Argument.withVariables, Argument.toolsOf]
  | cons argument rest inductionHypothesis =>
      cases argument with
      | text fragment =>
          rw [Argument.withVariables, Argument.toolsOf, Argument.toolsOf,
            inductionHypothesis]
      | tool name invocation =>
          cases vars with
          | nil =>
              rfl
          | cons var vars =>
              rw [Argument.withVariables, Argument.toolsOf, inductionHypothesis]
              rfl

mutual

theorem Line.tools_withVariables :
    ∀ (line : Line) (vars : List Variable),
      (line.withVariables vars).tools = line.tools.drop vars.length
  | .arguments arguments, vars => by
      rw [Line.withVariables, Line.tools, Line.tools, Argument.toolsOf_withVariables]
  | .shellList arguments, vars => by
      rw [Line.withVariables, Line.tools, Line.tools, Argument.toolsOf_withVariables]
  | .script script, vars => by
      rw [Line.withVariables, Line.tools, List.drop_nil]
  | .nested commands, vars => by
      rw [Line.withVariables, Line.tools, Line.tools, commands.tools_withVariables]

theorem Line.toolsOf_allWithVariables :
    ∀ (lines : List Line) (vars : List Variable),
      Line.toolsOf (Line.allWithVariables lines vars) =
        (Line.toolsOf lines).drop vars.length
  | [], vars => by
      rw [Line.allWithVariables, Line.toolsOf, List.drop_nil]
  | line :: rest, vars => by
      rw [Line.allWithVariables, Line.toolsOf, Line.toolsOf, line.tools_withVariables,
        Line.toolsOf_allWithVariables rest, drop_append_take]

theorem Commands.tools_withVariables :
    ∀ (commands : Commands) (vars : List Variable),
      (commands.withVariables vars).tools = commands.tools.drop vars.length
  | .mk environment first rest, vars => by
      rw [Commands.withVariables, Commands.tools, Commands.tools, first.tools_withVariables,
        Line.toolsOf_allWithVariables rest, drop_append_take]

end

/-! ## What calls tell of a conversion -/

section

variable
  {State Refusal : Type}
  (intern : Interning State Refusal)

theorem map_tool_callsOf
    (tools : List Tool)
    (state : State) :
    (callsOf intern tools state).map ToolCall.tool =
      tools.take (callsOf intern tools state).length := by
  induction tools generalizing state with
  | nil =>
      simp [callsOf]
  | cons tool rest inductionHypothesis =>
      rw [callsOf]
      rcases intern state tool with ⟨refusal | var, later⟩
      · simp
      · simp [inductionHypothesis]

/-- Every answer but the last one grants a variable, and a refusal ends the conversion. -/
theorem map_answer_callsOf
    (tools : List Tool)
    (state : State) :
    (callsOf intern tools state).map ToolCall.answer =
      (grantedVariables (callsOf intern tools state)).map .ok ++
        (internAll intern tools state).1.toList.map .error := by
  induction tools generalizing state with
  | nil =>
      rfl
  | cons tool rest inductionHypothesis =>
      rw [callsOf, internAll]
      rcases intern state tool with ⟨refusal | var, later⟩
      · rfl
      · exact congrArg (Except.ok var :: ·) (inductionHypothesis later)

/-- No tool is refused just when all of them are granted a variable. -/
theorem internAll_fst_eq_none_iff
    (tools : List Tool)
    (state : State) :
    (internAll intern tools state).1 = none ↔
      (grantedVariables (callsOf intern tools state)).length = tools.length := by
  induction tools generalizing state with
  | nil =>
      simp [internAll, callsOf, grantedVariables]
  | cons tool rest inductionHypothesis =>
      rw [callsOf, internAll]
      rcases intern state tool with ⟨refusal | var, later⟩
      · simp [grantedVariables, Except.toOption]
      · simpa [grantedVariables, Except.toOption] using inductionHypothesis later

/-- A function that refuses nothing is asked for all tools. -/
theorem internAll_fst_of_accepting
    (accepting : ∀ known tool, (intern known tool).1.isOk = true)
    (tools : List Tool)
    (state : State) :
    (internAll intern tools state).1 = none := by
  induction tools generalizing state with
  | nil =>
      rfl
  | cons tool rest inductionHypothesis =>
      have accepted := accepting state tool
      rw [internAll]
      rcases asked : intern state tool with ⟨refusal | var, later⟩
      · rw [asked] at accepted
        cases accepted
      · exact inductionHypothesis later

/-- Tools of two lists: the variables for the first list come first. -/
theorem take_grantedVariables
    (first second : List Tool)
    (state : State) :
    (grantedVariables (callsOf intern (first ++ second) state)).take first.length =
      grantedVariables (callsOf intern first state) := by
  induction first generalizing state with
  | nil =>
      simp [callsOf, grantedVariables]
  | cons tool rest inductionHypothesis =>
      rw [List.cons_append, callsOf, callsOf]
      rcases intern state tool with ⟨refusal | var, later⟩
      · simp [grantedVariables, Except.toOption]
      · simpa [grantedVariables, Except.toOption] using inductionHypothesis later

/-- The second list is asked for once the first one is through, and not at all otherwise. -/
theorem drop_grantedVariables
    (first second : List Tool)
    (state : State) :
    (grantedVariables (callsOf intern (first ++ second) state)).drop first.length =
      match internAll intern first state with
      | (none, later) => grantedVariables (callsOf intern second later)
      | (some _, _) => [] := by
  induction first generalizing state with
  | nil =>
      rfl
  | cons tool rest inductionHypothesis =>
      rw [List.cons_append, callsOf, internAll]
      rcases intern state tool with ⟨refusal | var, later⟩
      · simp [grantedVariables, Except.toOption]
      · simpa [grantedVariables, Except.toOption] using inductionHypothesis later

theorem Argument.converted_convertAll
    (arguments : List Argument)
    (state : State) :
    (Argument.convertAll intern arguments state).converted =
      Argument.withVariables arguments
        (grantedVariables (callsOf intern (Argument.toolsOf arguments) state)) := by
  induction arguments generalizing state with
  | nil =>
      rfl
  | cons argument rest inductionHypothesis =>
      cases argument with
      | text fragment =>
          exact congrArg (Argument.text fragment :: ·) (inductionHypothesis state)
      | tool name invocation =>
          rw [Argument.convertAll, Argument.toolsOf, callsOf]
          rcases intern state { name, invocation } with ⟨refusal | var, later⟩
          · rfl
          · exact congrArg (Argument.text var.use :: ·) (inductionHypothesis later)

mutual

theorem Line.converted_convert :
    ∀ (line : Line) (state : State),
      (line.convert intern state).converted =
        line.withVariables (grantedVariables (callsOf intern line.tools state))
  | .arguments arguments, state => by
      rw [Line.convert, Line.tools, Line.withVariables]
      exact congrArg Line.arguments (Argument.converted_convertAll intern arguments state)
  | .shellList arguments, state => by
      rw [Line.convert, Line.tools, Line.withVariables]
      exact congrArg Line.shellList (Argument.converted_convertAll intern arguments state)
  | .script script, state => by
      rw [Line.convert, Line.withVariables]
  | .nested commands, state => by
      rw [Line.convert, Line.tools, Line.withVariables]
      exact congrArg Line.nested (commands.converted_convert state)

theorem Line.converted_convertAll :
    ∀ (lines : List Line) (state : State),
      (Line.convertAll intern lines state).converted =
        Line.allWithVariables lines
          (grantedVariables (callsOf intern (Line.toolsOf lines) state))
  | [], state => by
      rw [Line.convertAll, Line.allWithVariables]
  | line :: rest, state => by
      have ending := (line.convert_describes intern state).ending
      rw [Line.convertAll, Line.toolsOf, Line.allWithVariables, take_grantedVariables,
        drop_grantedVariables, ← ending, Conversion.thenRest]
      cases (line.convert intern state).failure with
      | some refusal =>
          rw [Line.allWithVariables_nil, ← line.converted_convert state]
          rfl
      | none =>
          rw [← line.converted_convert state, ← Line.converted_convertAll rest]
          rfl

theorem Commands.converted_convert :
    ∀ (commands : Commands) (state : State),
      (commands.convert intern state).converted =
        commands.withVariables (grantedVariables (callsOf intern commands.tools state))
  | .mk environment first rest, state => by
      have ending := (first.convert_describes intern state).ending
      rw [Commands.convert, Commands.tools, Commands.withVariables, take_grantedVariables,
        drop_grantedVariables, ← ending]
      cases (first.convert intern state).failure with
      | some refusal =>
          rw [Line.allWithVariables_nil, ← first.converted_convert state]
          rfl
      | none =>
          rw [← first.converted_convert state, ← Line.converted_convertAll rest]
          rfl

end

/-! ## Recorded conversions -/

/-- Keeping a record changes neither the answers nor the state of the interning function. -/
theorem internAll_recording
    (tools : List Tool)
    (state : State)
    (earlier : List (ToolCall Refusal)) :
    internAll (recording intern) tools (state, earlier) =
      ((internAll intern tools state).1, (internAll intern tools state).2,
        earlier ++ callsOf intern tools state) := by
  induction tools generalizing state earlier with
  | nil =>
      simp [internAll, callsOf]
  | cons tool rest inductionHypothesis =>
      rw [internAll, internAll, callsOf, recording]
      rcases intern state tool with ⟨refusal | var, later⟩
      · rfl
      · simp [inductionHypothesis]

theorem callsOf_recording
    (tools : List Tool)
    (state : State)
    (earlier : List (ToolCall Refusal)) :
    callsOf (recording intern) tools (state, earlier) = callsOf intern tools state := by
  induction tools generalizing state earlier with
  | nil =>
      rfl
  | cons tool rest inductionHypothesis =>
      rw [callsOf, callsOf, recording]
      rcases intern state tool with ⟨refusal | var, later⟩
      · rfl
      · simp [inductionHypothesis]

end

/-! ## What a conversion changes -/

theorem Commands.environment_withVariables
    (commands : Commands)
    (vars : List Variable) :
    (commands.withVariables vars).environment = commands.environment := by
  obtain ⟨environment, first, rest⟩ := commands
  rw [Commands.withVariables]
  rfl

/-- Variables in the place of tools do not change whether a command needs a shell. -/
theorem Commands.needsShell_withVariables
    (commands : Commands)
    (vars : List Variable) :
    (commands.withVariables vars).needsShell = commands.needsShell := by
  obtain ⟨environment, first, rest⟩ := commands
  rw [Commands.withVariables]
  cases rest with
  | nil =>
      cases first <;> rw [Line.withVariables, Line.allWithVariables] <;> rfl
  | cons line others =>
      cases first <;> rw [Line.withVariables, Line.allWithVariables] <;> rfl

/-- What a conversion made of a command, told by the calls of the interning function. -/
structure Commands.ConvertedBy
    (commands : Commands)
    (calls : List (ToolCall Refusal))
    (conversion : Conversion State Refusal Commands) :
    Prop where
  /-- The first tools are asked for, each of them once and in order. -/
  tools : calls.map ToolCall.tool = commands.tools.take calls.length
  /-- Variables are granted up to a refusal, which is the last answer and the failure. -/
  answers :
    calls.map ToolCall.answer =
      (grantedVariables calls).map .ok ++ conversion.failure.toList.map .error
  /-- Without a failure every tool is granted a variable. -/
  complete :
    conversion.failure = none ↔
      (grantedVariables calls).length = commands.tools.length
  /-- The granted variables take the places of the first tools, and all else stays. -/
  converted : conversion.converted = commands.withVariables (grantedVariables calls)
  /-- The tools from the refused one on are left, at any depth. -/
  remaining :
    conversion.converted.tools = commands.tools.drop (grantedVariables calls).length
  environment : conversion.converted.environment = commands.environment
  needsShell : conversion.converted.needsShell = commands.needsShell

/--
Whatever the interning function does, conversion asks it for the tools of a command in their
order, each of them once, until one is refused.  It returns that refusal, leaves the function
in the state behind that call, and replaces just the tools that it was granted a variable
for, each by the reference to its own.  It does not fail where nothing is refused.
-/
theorem Commands.convert_calls
    (intern : Interning State Refusal)
    (commands : Commands)
    (state : State) :
    let conversion := commands.convert intern state
    let recorded := commands.convert (recording intern) (state, [])
    (recorded.converted = conversion.converted ∧
        recorded.failure = conversion.failure ∧
        recorded.state.1 = conversion.state) ∧
      commands.ConvertedBy recorded.state.2 conversion ∧
      ((∀ known tool, (intern known tool).1.isOk = true) → conversion.failure = none) := by
  intro conversion recorded
  obtain ⟨failure, later⟩ := Prod.mk.inj (commands.convert_describes intern state).ending
  obtain ⟨recordedFailure, recordedLater⟩ :=
    Prod.mk.inj (commands.convert_describes (recording intern) (state, [])).ending
  rw [internAll_recording] at recordedFailure recordedLater
  have converted := commands.converted_convert intern state
  have calls : recorded.state.2 = callsOf intern commands.tools state :=
    congrArg Prod.snd recordedLater
  refine ⟨⟨?_, ?_, ?_⟩, ?_, ?_⟩
  · rw [converted, ← callsOf_recording intern commands.tools state []]
    exact commands.converted_convert (recording intern) (state, [])
  · exact recordedFailure.trans failure.symm
  · exact (congrArg Prod.fst recordedLater).trans later.symm
  · rw [calls]
    exact
      { tools := map_tool_callsOf intern commands.tools state
        answers := by
          rw [failure]
          exact map_answer_callsOf intern commands.tools state
        complete := by
          rw [failure]
          exact internAll_fst_eq_none_iff intern commands.tools state
        converted
        remaining := by
          rw [converted, commands.tools_withVariables]
        environment := by
          rw [converted, commands.environment_withVariables]
        needsShell := by
          rw [converted, commands.needsShell_withVariables] }
  · intro accepting
    exact failure.trans (internAll_fst_of_accepting intern accepting commands.tools state)

/--
A function that counts its calls names the variable of a tool by the count.  The tool in
another one's invocation is no tool of the command.
-/
theorem Commands.convert_calls_counting :
    let counting : Interning Nat String :=
      fun known _ => (.ok (.ofString (if known = 0 then "first" else "later")), known + 1)
    let linker := Argument.tool "ld" (.words [.tool "wrap" (.text (.plain "w"))])
    let compiler := Argument.tool "cc" (.text (.plain "gcc"))
    let commands :=
      Commands.single (.nested (.single (.nested (.single (.shellList [linker])))))
        |>.andThen (.arguments [compiler, .text (.plain "-c"), linker])
    let recorded := commands.convert (recording counting) (0, [])
    (∀ known tool, (counting known tool).1.isOk = true) ∧
      recorded.failure = none ∧
      recorded.state.2.map (·.tool.name) = ["ld", "cc", "ld"] ∧
      recorded.converted =
        (Commands.single
            (.nested
              (.single (.nested (.single (.shellList [.text (.literal "$\x7bfirst\x7d")])))))
          |>.andThen
            (.arguments
              [.text (.literal "$\x7blater\x7d"), .text (.plain "-c"),
                .text (.literal "$\x7blater\x7d")])) := by
  intro counting linker compiler commands recorded
  have accepting : ∀ known tool, (counting known tool).1.isOk = true := fun _ _ => rfl
  obtain ⟨⟨_, sameFailure, _⟩, _, ends⟩ := commands.convert_calls counting 0
  exact ⟨accepting, sameFailure.trans (ends accepting), rfl, rfl⟩

/-- The first refusal ends the calls, inside of a list that is converted in part. -/
example :
    let refusing : Interning Unit String := fun _ tool =>
      if tool.name = "cc" then (.error "no compiler", ()) else (.ok (.ofString tool.name), ())
    let linker := Argument.tool "ld" (.text (.plain "lld"))
    let compiler := Argument.tool "cc" (.text (.plain "gcc"))
    let commands :=
      Commands.single (.shellList [linker, compiler, linker]) |>.andThen (.arguments [linker])
    let recorded := commands.convert (recording refusing) ((), [])
    recorded.failure = some "no compiler" ∧
      recorded.state.2.map (·.tool.name) = ["ld", "cc"] ∧
      recorded.converted =
        (Commands.single
            (.shellList [.text (.literal "$\x7bld\x7d"), compiler, linker])
          |>.andThen (.arguments [linker])) :=
  ⟨rfl, rfl, rfl⟩

end BuildGraph
