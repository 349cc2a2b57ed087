import BuildGraph.Ninja.File
import BuildGraph.Ninja.Receiver
import BuildGraph.Ninja.Stream

namespace BuildGraph.Ninja

/-!
# Writing build files to receivers

A build file is handed over as it is written: leaf by leaf, and with every space, separator
and line break as a piece of its own.  Only a path is put together first, since it is quoted
as a whole.
-/

section Emitters

variable
  {State : Type}
  (receiver : Receiver State)
  (target : Target)

/-! ## Fragments -/

mutual

/-- Hand over a fragment, and tell whether it needs quotes. -/
def emitFragment
    (position : Position)
    (quoting : Quoting) :
    Fragment →
    Emission State Bool
  | .leaf leaf => receiver.handOver (writeLeaf position quoting leaf)
  | .path path => receiver.handOver (writePath target position path)
  | .concat parts => emitFragments position quoting parts

/-- Hand over fragments one by one, and tell whether one of them needs quotes. -/
def emitFragments
    (position : Position)
    (quoting : Quoting) :
    List Fragment →
    Emission State Bool
  | [] => return false
  | fragment :: rest => do
      let first ← emitFragment position quoting fragment
      let others ← emitFragments position quoting rest
      return first || others

end

/-- Hand over fragments with a space between each two, behind a lead when there are any. -/
def emitEach
    (position : Position)
    (lead : List Char)
    (fragments : List Fragment) :
    Emission State Unit :=
  receiver.sendSpaced lead
    (fun fragment => do
      let _ ← emitFragment receiver target position .quote fragment)
    fragments

/-! ## Commands -/

/-- Hand over an argument; a tool has no text of its own. -/
def emitArgument
    (position : Position) :
    Argument →
    Emission State Unit
  | .text fragment => do
      let _ ← emitFragment receiver target position .quote fragment
  | .tool name _ => throw (.render (.unconvertedTool name))

/-- Hand over arguments with a space between each two, behind a lead when there are any. -/
def emitArguments
    (position : Position)
    (lead : List Char)
    (arguments : List Argument) :
    Emission State Unit :=
  receiver.sendSpaced lead (emitArgument receiver target position) arguments

/-- Hand over an environment binding as a line of its own. -/
def emitBinding (binding : String × Fragment) : Emission State Unit := do
  receiver.send "export ".toList
  let _ ← emitFragment receiver target .shell .quote
    (.concat [.plain binding.1, .shellLiteral "=", binding.2])

/-- Hand over environment bindings, each with the separator behind it. -/
def emitBindings : List (String × Fragment) → Emission State Unit
  | [] => return ()
  | binding :: rest => do
      emitBinding receiver target binding
      receiver.send lineSeparator
      emitBindings rest

mutual

/-- Hand over one line of a command. -/
def emitLine : Line → Emission State Unit
  | .arguments arguments | .shellList arguments =>
      emitArguments receiver target .shell [] arguments
  | .script script => do
      let _ ← emitFragment receiver target .shell .never script
  | .nested commands => emitCommands commands

/-- Hand over lines, each behind a separator. -/
def emitFurtherLines : List Line → Emission State Unit
  | [] => return ()
  | line :: rest => do
      receiver.send lineSeparator
      emitLine line
      emitFurtherLines rest

/-- Hand over a command: its bindings and lines, in an envelope where one is needed. -/
def emitCommands : Commands → Emission State Unit
  | .mk environment first rest => do
      let envelope := needsEnvelope target (.mk environment first rest)
      if envelope then
        receiver.send "cmd /s /c \"".toList
      emitBindings receiver target environment.entries
      emitLine first
      emitFurtherLines rest
      if envelope then
        receiver.send "\"".toList

end

/-- Hand over the right-hand side of an assignment. -/
def emitValue
    (position : Position) :
    Value →
    Emission State Unit
  | .text fragment => do
      let _ ← emitFragment receiver target position .never fragment
  | .words arguments => emitArguments receiver target position [] arguments
  | .sequence commands => emitCommands receiver target commands

/-! ## Files -/

/-- Hand over an assignment on a line of its own. -/
def emitAssignment
    (position : Position)
    (indent name : String)
    (value : Value) :
    Emission State Unit := do
  receiver.send indent.toList
  receiver.send name.toList
  receiver.send " = ".toList
  emitValue receiver target position value
  receiver.send "\n".toList

/-- Hand over the lowest version that can read the file, if there is one. -/
def emitRequiredVersion : Option Version → Emission State Unit
  | none => return ()
  | some version => do
      emitAssignment receiver target .shell "" "ninja_required_version"
        (.text (.plain version.requirement))
      receiver.send "\n".toList

/-- Hand over the assignments of one group, if it has any. -/
def emitGroup (file : BuildFile) (group : VariableGroup) : Emission State Unit :=
  match file.assignmentsOf group with
  | [] => return ()
  | assignments => do
      assignments.forM fun assignment =>
        emitAssignment receiver file.target (groupPosition group) ""
          assignment.target.name assignment.value
      receiver.send "\n".toList

/-- Hand over bindings, each on an indented line of its own. -/
def emitBindingLines (bindings : List (String × Value)) : Emission State Unit :=
  bindings.forM fun binding =>
    emitAssignment receiver target .shell indentation binding.1 binding.2

/-- Hand over a rule. -/
def emitRule (rule : Rule) : Emission State Unit := do
  receiver.send "rule ".toList
  receiver.send rule.name.toList
  receiver.send "\n".toList
  emitBindingLines receiver target (ruleBindings rule)

/-- Hand over the first line of an edge. -/
def emitEdgeLine (edge : Edge) : Emission State Unit := do
  receiver.send "build ".toList
  emitEach receiver target .output [] edge.outputs
  receiver.send ": ".toList
  receiver.send edge.rule.toList
  emitEach receiver target .input " ".toList edge.inputs
  emitEach receiver target .input " | ".toList edge.implicit
  emitEach receiver target .input " || ".toList edge.orderOnly
  receiver.send "\n".toList

/-- Hand over an edge with its overrides. -/
def emitEdge (edge : Edge) : Emission State Unit := do
  emitEdgeLine receiver target edge
  emitBindingLines receiver target
    (edge.overrides.entries.map fun entry => (entry.1.name, entry.2))

/-- Hand over the default targets, if there are any. -/
def emitDefaults : List Fragment → Emission State Unit
  | [] => return ()
  | defaults => do
      receiver.send "default ".toList
      emitEach receiver target .input [] defaults
      receiver.send "\n".toList

/-- Hand over a build file. -/
def emitFile (file : BuildFile) : Emission State Unit := do
  receiver.send (header file.source).toList
  emitRequiredVersion receiver file.target file.requiredVersion
  VariableGroup.all.forM (emitGroup receiver file)
  file.rules.forM fun rule => do
    emitRule receiver file.target rule
    receiver.send "\n".toList
  file.edges.forM fun edge => do
    emitEdge receiver file.target edge
    receiver.send "\n".toList
  emitDefaults receiver file.target file.defaults

end Emitters

/-! ## Streams -/

namespace Stream

/-- A stream while it is written to: the bytes that it took, and why it failed, if it did. -/
structure Progress where
  received : List UInt8 := []
  failure : Option String := none

/-- Whether a stream takes another byte. -/
def hasRoom (stream : Stream) (progress : Progress) : Bool :=
  match stream.capacity with
  | none => true
  | some capacity => progress.received.length < capacity

/-- Send bytes to a stream until it fails. -/
def accept (stream : Stream) : List UInt8 → Progress → Bool × Progress
  | [], progress => (true, progress)
  | byte :: rest, progress =>
      if stream.hasRoom progress then
        stream.accept rest { progress with received := progress.received ++ [byte] }
      else
        (false, { progress with failure := some stream.fault })

/-- Of bytes in two parts the second one is sent where the first one was taken. -/
theorem accept_append
    (stream : Stream)
    (first second : List UInt8)
    (progress : Progress) :
    stream.accept (first ++ second) progress =
      if (stream.accept first progress).1 = true then
        stream.accept second (stream.accept first progress).2
      else
        stream.accept first progress := by
  induction first generalizing progress with
  | nil =>
      rfl
  | cons byte rest inductionHypothesis =>
      rw [List.cons_append, accept, accept]
      split
      · exact inductionHypothesis _
      · rfl

/-- A stream receives text as bytes. -/
def receiver (stream : Stream) : Receiver Progress where
  put text := stream.accept (Text.encode text)
  put_nil _ := rfl
  put_append first second progress := by
    rw [Text.encode, List.flatMap_append]
    exact stream.accept_append _ _ progress

/--
Flush a stream that was written to.

A stream that failed is reported with its own reason.  Flushing is tried in any case, but
its failure is reported only if nothing else failed.
-/
def finish
    (stream : Stream)
    (ending : Except WriteError Unit)
    (final : Progress) :
    Delivery where
  received := final.received
  outcome :=
    match ending, stream.flushFault with
    | .error .refused, _ => .error (final.failure.elim .refused .stream)
    | .error error, _ => .error error
    | .ok (), some fault => .error (.stream fault)
    | .ok (), none => .ok ()

/-- Write a build file to a stream, piece by piece, and flush the stream. -/
def write (stream : Stream) (file : BuildFile) : Delivery :=
  let written := emitFile stream.receiver file {}
  stream.finish written.1 written.2

end Stream

end BuildGraph.Ninja
