import BuildGraph.Ninja.Error
import BuildGraph.Text.Bytes

namespace BuildGraph.Ninja

/-!
# Places that output goes to

A sink collects the text of one output after the other, up to a number of bytes.  A
stream takes bytes until it fails, and is flushed at the end in any case.
-/

/-- A place for text that takes a limited number of bytes. -/
structure Sink where
  /-- How many bytes fit in at all, or nothing when there is no limit. -/
  capacity : Option Nat
  /-- The text taken so far. -/
  kept : List Char := []
  /-- Whether text has been refused before. -/
  hasRefused : Bool := false

namespace Sink

/-- Whether a sink takes a whole text. -/
def accepts (sink : Sink) (text : List Char) : Bool :=
  text.isEmpty ||
    (!sink.hasRefused &&
      match sink.capacity with
      | none => true
      | some capacity =>
          Text.byteLength sink.kept + Text.byteLength text ≤ capacity)

/-- As much of a text as a sink has room for. -/
def portion (sink : Sink) (text : List Char) : List Char :=
  if sink.hasRefused then
    []
  else
    match sink.capacity with
    | none => text
    | some capacity => Text.fitting (capacity - Text.byteLength sink.kept) text

/--
Send an output to a sink.

A sink that refused text once takes nothing any more, though an output without text
passes it untouched.
-/
def take
    (sink : Sink)
    (output : Output Result) :
    Except WriteError Result × Sink :=
  if sink.accepts output.text then
    (output.outcome.mapError .render,
      { sink with kept := sink.kept ++ output.text })
  else
    (.error .refused,
      { sink with
        kept := sink.kept ++ sink.portion output.text
        hasRefused := true })

end Sink

/-- A stream of bytes that may fail. -/
structure Stream where
  /-- How many bytes it takes before it fails, or nothing when it never does. -/
  capacity : Option Nat := none
  /-- Why it fails then. -/
  fault : String := "disk full"
  /-- Why flushing it fails, if it does. -/
  flushFault : Option String := none

/-- The bytes that a stream holds in the end, and how writing went. -/
structure Delivery where
  received : List UInt8
  outcome : Except WriteError Unit

/--
Write an output to a stream and flush it.

A failure of the stream hides everything after it.  An output that stopped reports why,
and only a complete one reports that flushing failed.
-/
def Stream.deliver (stream : Stream) (output : Output Unit) : Delivery :=
  let bytes := Text.encode output.text
  match stream.capacity with
  | some capacity =>
      if bytes.length ≤ capacity then
        { received := bytes, outcome := complete output }
      else
        { received := bytes.take capacity
          outcome := .error (.stream stream.fault) }
  | none => { received := bytes, outcome := complete output }
where
  /-- The outcome once all text has arrived. -/
  complete (output : Output Unit) : Except WriteError Unit :=
    match output.outcome, stream.flushFault with
    | .error error, _ => .error (.render error)
    | .ok (), some fault => .error (.stream fault)
    | .ok (), none => .ok ()

end BuildGraph.Ninja
