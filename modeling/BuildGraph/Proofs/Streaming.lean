import BuildGraph.Ninja.Emission

namespace BuildGraph.Ninja

/-!
# Streams receive what is written

A writer hands its text over in many pieces, and each of them may be refused.  Every emitter
is proved to do what its writer would do if the whole text were handed over at once, whatever
it is handed to.  So the pieces that a text is cut into never show, and a stream that fails
is cut off at its own limit.
-/

variable {State : Type}

/-! ## Outputs that are handed over -/

namespace Receiver

theorem bind_apply
    (first : Emission State First)
    (next : First → Emission State Second)
    (state : State) :
    (first >>= next) state =
      match first state with
      | (.ok value, later) => next value later
      | (.error error, later) => (.error error, later) := by
  show ExceptT.bindCont next (first state).1 (first state).2 = _
  rcases first state with ⟨_ | _, _⟩ <;> rfl

theorem handOver_apply
    (receiver : Receiver State)
    (output : Output Result)
    (state : State) :
    receiver.handOver output state =
      match receiver.put output.text state with
      | (true, later) => (output.outcome.mapError .render, later)
      | (false, later) => (.error .refused, later) := by
  rw [handOver, bind_apply, send]
  rcases receiver.put output.text state with ⟨_ | _, later⟩
  · rfl
  · rcases output.outcome with _ | _ <;> rfl

/-- An output was handed over to its end just if its text was taken and it did not stop. -/
theorem handOver_eq_ok_iff
    (receiver : Receiver State)
    {output : Output Result}
    {state later : State}
    {value : Result} :
    receiver.handOver output state = (.ok value, later) ↔
      receiver.put output.text state = (true, later) ∧ output.outcome = .ok value := by
  rw [handOver_apply]
  constructor
  · intro ended
    rcases taken : receiver.put output.text state with ⟨_ | _, after⟩
    · rw [taken] at ended
      cases ended
    · rcases outcome : output.outcome with _ | _
      · rw [taken, outcome] at ended
        cases ended
      · rw [taken, outcome] at ended
        cases ended
        exact ⟨rfl, rfl⟩
  · rintro ⟨taken, outcome⟩
    rw [taken, outcome]
    rfl

/-- Outputs are handed over one after the other or together. -/
theorem handOver_bind
    (receiver : Receiver State)
    (first : Output First)
    (next : First → Output Second) :
    (receiver.handOver first >>= fun value => receiver.handOver (next value)) =
      receiver.handOver (first.andThen next) := by
  funext state
  rw [bind_apply]
  simp only [handOver_apply]
  rcases first with ⟨text, _ | value⟩
  · simp only [Output.andThen]
    rcases receiver.put text state with ⟨_ | _, later⟩ <;> rfl
  · simp only [Output.andThen, receiver.put_append]
    rcases receiver.put text state with ⟨_ | _, later⟩ <;> rfl

theorem send_eq_handOver
    (receiver : Receiver State)
    (text : List Char) :
    receiver.send text = receiver.handOver (Output.write text) := by
  funext state
  rw [handOver_apply]
  rfl

theorem throw_eq_handOver
    (receiver : Receiver State)
    (error : RenderError) :
    (throw (.render error) : Emission State Result) =
      receiver.handOver (Output.stop error) := by
  funext state
  rw [handOver_apply]
  simp only [Output.stop, receiver.put_nil]
  rfl

theorem pure_eq_handOver
    (receiver : Receiver State)
    (value : Result) :
    (pure value : Emission State Result) =
      receiver.handOver (Output.result value) := by
  funext state
  rw [handOver_apply]
  simp only [Output.result, receiver.put_nil]
  rfl

end Receiver

open Receiver

variable (receiver : Receiver State)

theorem forM_eq_handOver
    {emit : Item → Emission State Unit}
    {write : Item → Output Unit}
    {items : List Item}
    (each : ∀ item ∈ items, emit item = receiver.handOver (write item)) :
    items.forM emit = receiver.handOver (Output.forEach write items) := by
  induction items with
  | nil =>
      exact receiver.pure_eq_handOver ()
  | cons item rest inductionHypothesis =>
      rw [List.forall_mem_cons] at each
      show (emit item >>= fun _ => rest.forM emit) = _
      rw [each.1, inductionHypothesis each.2, handOver_bind]
      rfl

/-- Items with spaces between them are handed over as their outputs with spaces are. -/
theorem sendSpaced_eq_handOver
    {emit : Item → Emission State Unit}
    {write : Item → Output Unit}
    (each : ∀ item, emit item = receiver.handOver (write item))
    (lead : List Char)
    (first : Item)
    (rest : List Item) :
    receiver.sendSpaced lead emit (first :: rest) =
      receiver.handOver
        ((Output.write lead).andThen fun _ =>
          Output.separated [' '] write (first :: rest)) := by
  have behindFirst :
      (rest.forM fun next => do
        receiver.send [' ']
        emit next) =
        receiver.handOver
          (Output.forEach
            (fun next => (Output.write [' ']).andThen fun _ => write next) rest) := by
    apply forM_eq_handOver
    intro next _
    rw [send_eq_handOver, each, handOver_bind]
  rw [sendSpaced, behindFirst, send_eq_handOver, each, handOver_bind, handOver_bind]
  rfl

/-! ## Emitters and writers -/

variable (target : Target)

mutual

/-- A fragment is handed over leaf by leaf as its output would be at once. -/
theorem emitFragment_eq_handOver
    (position : Position)
    (quoting : Quoting) :
    ∀ fragment : Fragment,
      emitFragment receiver target position quoting fragment =
        receiver.handOver (writeFragment target position quoting fragment)
  | .leaf leaf => by
      rw [emitFragment, writeFragment]
  | .path path => by
      rw [emitFragment, writeFragment]
  | .concat parts => by
      rw [emitFragment, writeFragment]
      exact emitFragments_eq_handOver position quoting parts

theorem emitFragments_eq_handOver
    (position : Position)
    (quoting : Quoting) :
    ∀ fragments : List Fragment,
      emitFragments receiver target position quoting fragments =
        receiver.handOver (writeFragments target position quoting fragments)
  | [] => by
      exact receiver.pure_eq_handOver false
  | fragment :: rest => by
      have first := emitFragment_eq_handOver position quoting fragment
      have others := emitFragments_eq_handOver position quoting rest
      simp only [emitFragments, first, others, pure_eq_handOver receiver, handOver_bind]
      rfl

end

theorem emitFragment_andThen_eq_handOver
    (position : Position)
    (quoting : Quoting)
    (fragment : Fragment) :
    (do
      let _ ← emitFragment receiver target position quoting fragment) =
      receiver.handOver
        (do
          let _ ← writeFragment target position quoting fragment) := by
  rw [emitFragment_eq_handOver, pure_eq_handOver receiver, handOver_bind]
  rfl

theorem emitEach_eq_handOver
    (position : Position)
    (lead : List Char)
    (fragments : List Fragment) :
    emitEach receiver target position lead fragments =
      receiver.handOver (writeEach target position lead fragments) := by
  cases fragments with
  | nil =>
      exact receiver.pure_eq_handOver ()
  | cons first rest =>
      exact sendSpaced_eq_handOver receiver
        (emitFragment_andThen_eq_handOver receiver target position .quote)
        lead first rest

theorem emitArgument_eq_handOver
    (position : Position)
    (argument : Argument) :
    emitArgument receiver target position argument =
      receiver.handOver (writeArgument target position argument) := by
  cases argument with
  | text fragment =>
      exact emitFragment_andThen_eq_handOver receiver target position .quote fragment
  | tool name invocation =>
      exact receiver.throw_eq_handOver (.unconvertedTool name)

theorem emitArguments_eq_handOver
    (position : Position)
    (lead : List Char)
    (arguments : List Argument) :
    emitArguments receiver target position lead arguments =
      receiver.handOver (writeArguments target position lead arguments) := by
  cases arguments with
  | nil =>
      exact receiver.pure_eq_handOver ()
  | cons first rest =>
      exact sendSpaced_eq_handOver receiver
        (emitArgument_eq_handOver receiver target position) lead first rest

theorem emitBinding_eq_handOver
    (binding : String × Fragment) :
    emitBinding receiver target binding =
      receiver.handOver (writeBinding target binding) := by
  rw [emitBinding, emitFragment_andThen_eq_handOver, send_eq_handOver, handOver_bind]
  rfl

theorem emitBindings_eq_handOver
    (bindings : List (String × Fragment)) :
    emitBindings receiver target bindings =
      receiver.handOver (writeBindings target bindings) := by
  induction bindings with
  | nil =>
      exact receiver.pure_eq_handOver ()
  | cons binding rest inductionHypothesis =>
      rw [emitBindings, emitBinding_eq_handOver, inductionHypothesis, send_eq_handOver,
        handOver_bind, handOver_bind]
      rfl

mutual

theorem emitLine_eq_handOver :
    ∀ line : Line,
      emitLine receiver target line = receiver.handOver (writeLine target line)
  | .arguments arguments | .shellList arguments => by
      rw [emitLine, writeLine]
      exact emitArguments_eq_handOver receiver target .shell [] arguments
  | .script script => by
      rw [emitLine, writeLine]
      exact emitFragment_andThen_eq_handOver receiver target .shell .never script
  | .nested commands => by
      rw [emitLine, writeLine]
      exact emitCommands_eq_handOver commands

theorem emitFurtherLines_eq_handOver :
    ∀ lines : List Line,
      emitFurtherLines receiver target lines =
        receiver.handOver (writeFurtherLines target lines)
  | [] => by
      exact receiver.pure_eq_handOver ()
  | line :: rest => by
      rw [emitFurtherLines, emitLine_eq_handOver line, emitFurtherLines_eq_handOver rest,
        send_eq_handOver, handOver_bind, handOver_bind]
      rfl

/-- A command is handed over line by line as its output would be at once. -/
theorem emitCommands_eq_handOver :
    ∀ commands : Commands,
      emitCommands receiver target commands =
        receiver.handOver (writeCommands target commands)
  | .mk environment first rest => by
      have bindings := emitBindings_eq_handOver receiver target environment.entries
      have head := emitLine_eq_handOver first
      have others := emitFurtherLines_eq_handOver rest
      rw [emitCommands, writeCommands, bindings, head, others]
      cases needsEnvelope target (.mk environment first rest) with
      | true =>
          simp only [↓reduceIte, send_eq_handOver, handOver_bind]
          rfl
      | false =>
          simp only [Bool.false_eq_true, ↓reduceIte, pure_eq_handOver receiver, handOver_bind]
          rfl

end

theorem emitValue_eq_handOver
    (position : Position)
    (value : Value) :
    emitValue receiver target position value =
      receiver.handOver (writeValue target position value) := by
  cases value with
  | text fragment =>
      exact emitFragment_andThen_eq_handOver receiver target position .never fragment
  | words arguments =>
      exact emitArguments_eq_handOver receiver target position [] arguments
  | sequence commands =>
      exact emitCommands_eq_handOver receiver target commands

theorem emitAssignment_eq_handOver
    (position : Position)
    (indent name : String)
    (value : Value) :
    emitAssignment receiver target position indent name value =
      receiver.handOver (writeAssignment target position indent name value) := by
  simp only [emitAssignment, send_eq_handOver, emitValue_eq_handOver, handOver_bind]
  rfl

theorem emitRequiredVersion_eq_handOver
    (required : Option Version) :
    emitRequiredVersion receiver target required =
      receiver.handOver (writeRequiredVersion target required) := by
  cases required with
  | none =>
      exact receiver.pure_eq_handOver ()
  | some version =>
      rw [emitRequiredVersion, emitAssignment_eq_handOver, send_eq_handOver, handOver_bind]
      rfl

theorem emitGroup_eq_handOver
    (file : BuildFile)
    (group : VariableGroup) :
    emitGroup receiver file group = receiver.handOver (writeGroup file group) := by
  unfold emitGroup writeGroup
  cases file.assignmentsOf group with
  | nil =>
      exact receiver.pure_eq_handOver ()
  | cons first rest =>
      have assignments :=
        forM_eq_handOver receiver fun assignment (_ : assignment ∈ first :: rest) =>
          emitAssignment_eq_handOver receiver file.target (groupPosition group) ""
            assignment.target.name assignment.value
      simp only [assignments, send_eq_handOver, handOver_bind]
      rfl

theorem emitBindingLines_eq_handOver
    (bindings : List (String × Value)) :
    emitBindingLines receiver target bindings =
      receiver.handOver (writeBindingLines target bindings) := by
  apply forM_eq_handOver
  intro binding _
  exact emitAssignment_eq_handOver receiver target .shell indentation binding.1 binding.2

theorem emitRule_eq_handOver
    (rule : Rule) :
    emitRule receiver target rule = receiver.handOver (writeRule target rule) := by
  simp only [emitRule, send_eq_handOver, emitBindingLines_eq_handOver, handOver_bind]
  rfl

theorem emitEdge_eq_handOver
    (edge : Edge) :
    emitEdge receiver target edge = receiver.handOver (writeEdge target edge) := by
  have line :
      emitEdgeLine receiver target edge =
        receiver.handOver (writeEdgeLine target edge) := by
    simp only [emitEdgeLine, send_eq_handOver, emitEach_eq_handOver, handOver_bind]
    rfl
  rw [emitEdge, line, emitBindingLines_eq_handOver, handOver_bind]
  rfl

theorem emitDefaults_eq_handOver
    (defaults : List Fragment) :
    emitDefaults receiver target defaults =
      receiver.handOver (writeDefaults target defaults) := by
  cases defaults with
  | nil =>
      exact receiver.pure_eq_handOver ()
  | cons first rest =>
      simp only [emitDefaults, send_eq_handOver, emitEach_eq_handOver, handOver_bind]
      rfl

/-- A build file is handed over in pieces just as its output would be at once. -/
theorem emitFile_eq_handOver
    (file : BuildFile) :
    emitFile receiver file = receiver.handOver (writeFile file) := by
  have groups :
      VariableGroup.all.forM (emitGroup receiver file) =
        receiver.handOver (Output.forEach (writeGroup file) VariableGroup.all) :=
    forM_eq_handOver receiver fun group _ => emitGroup_eq_handOver receiver file group
  have rules :
      (file.rules.forM fun rule => do
        emitRule receiver file.target rule
        receiver.send "\n".toList) =
        receiver.handOver
          (Output.forEach
            (fun rule => (writeRule file.target rule).andThen fun _ => writeString "\n")
            file.rules) := by
    apply forM_eq_handOver
    intro rule _
    rw [emitRule_eq_handOver, send_eq_handOver, handOver_bind]
    rfl
  have edges :
      (file.edges.forM fun edge => do
        emitEdge receiver file.target edge
        receiver.send "\n".toList) =
        receiver.handOver
          (Output.forEach
            (fun edge => (writeEdge file.target edge).andThen fun _ => writeString "\n")
            file.edges) := by
    apply forM_eq_handOver
    intro edge _
    rw [emitEdge_eq_handOver, send_eq_handOver, handOver_bind]
    rfl
  rw [emitFile, groups, rules, edges]
  simp only [send_eq_handOver, emitRequiredVersion_eq_handOver, emitDefaults_eq_handOver,
    handOver_bind]
  rfl

/-! ## Streams -/

/-- What is kept of a file without a limit is its output. -/
theorem emitFile_buffer
    (file : BuildFile) :
    emitFile Receiver.buffer file [] =
      ((writeFile file).outcome.mapError .render, (writeFile file).text) := by
  rw [emitFile_eq_handOver, handOver_apply]
  rfl

namespace Stream

theorem accept_of_unlimited
    {stream : Stream}
    (unlimited : stream.capacity = none)
    (bytes : List UInt8)
    (progress : Progress) :
    stream.accept bytes progress =
      (true, { progress with received := progress.received ++ bytes }) := by
  induction bytes generalizing progress with
  | nil =>
      simp [accept]
  | cons byte rest inductionHypothesis =>
      have room : stream.hasRoom progress = true := by
        rw [hasRoom, unlimited]
      rw [accept, if_pos room, inductionHypothesis]
      simp

/-- A stream takes bytes one by one until its limit is reached, and fails at the next one. -/
theorem accept_of_limited
    {stream : Stream}
    {limit : Nat}
    (limited : stream.capacity = some limit)
    (bytes : List UInt8)
    {progress : Progress}
    (within : progress.received.length ≤ limit) :
    stream.accept bytes progress =
      if progress.received.length + bytes.length ≤ limit then
        (true, { progress with received := progress.received ++ bytes })
      else
        (false,
          { received :=
              progress.received ++ bytes.take (limit - progress.received.length)
            failure := some stream.fault }) := by
  induction bytes generalizing progress with
  | nil =>
      simp [accept, within]
  | cons byte rest inductionHypothesis =>
      have room :
          stream.hasRoom progress = decide (progress.received.length < limit) := by
        rw [hasRoom, limited]
      rw [accept, room]
      by_cases space : progress.received.length < limit
      · have enough : (progress.received ++ [byte]).length ≤ limit := by
          simpa using Nat.succ_le_of_lt space
        have left :
            limit - progress.received.length =
              limit - (progress.received.length + 1) + 1 := by
          omega
        rw [if_pos (decide_eq_true space), inductionHypothesis enough, left]
        simp [Nat.add_assoc, Nat.add_comm 1]
      · have full : limit - progress.received.length = 0 := by
          omega
        have exceeds : ¬ progress.received.length + (byte :: rest).length ≤ limit := by
          simp only [List.length_cons]
          omega
        rw [if_neg (by simpa using space), if_neg exceeds, full]
        simp

theorem finish_of_taken
    (stream : Stream)
    (output : Output Unit)
    (final : Progress) :
    stream.finish (output.outcome.mapError .render) final =
      { received := final.received, outcome := deliver.complete stream output } := by
  rcases output with ⟨text, _ | _⟩ <;> rcases stream with ⟨_, _, _ | _⟩ <;> rfl

theorem finish_handOver
    (stream : Stream)
    (output : Output Unit) :
    stream.finish (stream.receiver.handOver output {}).1
        (stream.receiver.handOver output {}).2 =
      stream.deliver output := by
  rw [handOver_apply]
  unfold deliver
  cases limited : stream.capacity with
  | none =>
      simp only [receiver, accept_of_unlimited limited, finish_of_taken]
      rfl
  | some limit =>
      have empty : ({} : Progress).received.length ≤ limit := Nat.zero_le limit
      simp only [receiver, accept_of_limited limited _ empty]
      by_cases fits : (Text.encode output.text).length ≤ limit
      · simp [fits, finish_of_taken]
      · simp [fits, finish]

/-- Writing in pieces delivers what writing the whole output would. -/
theorem write_eq_deliver
    (stream : Stream)
    (file : BuildFile) :
    stream.write file = stream.deliver (writeFile file) := by
  have handedOver := stream.finish_handOver (writeFile file)
  rw [← emitFile_eq_handOver] at handedOver
  exact handedOver

/--
Wherever a stream stops, it holds the text up to there, and says so unless the text had
ended before.  A stream that took the whole text reports why writing stopped; only if
nothing stopped it, flushing may still fail.  A text that is complete is the generated one.
-/
theorem write_eq_of_limit
    (file : BuildFile)
    (limit : Nat)
    (fault : String)
    (flushFault : Option String) :
    let written : Except WriteError Unit × List Char := emitFile Receiver.buffer file []
    let bytes := Text.encode written.2
    Stream.write { capacity := some limit, fault, flushFault } file =
        (if bytes.length ≤ limit then
          { received := bytes
            outcome :=
              match written.1, flushFault with
              | .error error, _ => .error error
              | .ok (), some reason => .error (.stream reason)
              | .ok (), none => .ok () }
        else
          { received := bytes.take limit
            outcome := .error (.stream fault) }) ∧
      (generate file).mapError .render =
        written.1.map fun _ => String.ofList written.2 := by
  intro written bytes
  have whole : written = _ := emitFile_buffer file
  rw [write_eq_deliver, generate]
  simp only [bytes, whole]
  rcases writeFile file with ⟨text, outcome⟩
  constructor
  · cases outcome <;> cases flushFault <;> rfl
  · cases outcome with
    | error error => rfl
    | ok value => rfl

end Stream

end BuildGraph.Ninja
