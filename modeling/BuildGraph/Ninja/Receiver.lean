import BuildGraph.Ninja.Error

namespace BuildGraph.Ninja

/-!
# Writing piece by piece

A writer hands its text over in many small pieces.  A receiver takes one after the other
until it refuses one, and there writing ends at once.
-/

/--
What pieces of text are handed to.

A receiver tells whether it took a piece, and of one that it refuses it keeps what it can.
How a text is cut into pieces makes no difference to it.
-/
structure Receiver (State : Type) where
  put : List Char → State → Bool × State
  put_nil : ∀ state, put [] state = (true, state)
  put_append :
    ∀ first second state,
      put (first ++ second) state =
        if (put first state).1 = true then
          put second (put first state).2
        else
          put first state

/-- Writing to a receiver: how it ended, and the receiver's state afterwards. -/
abbrev Emission (State : Type) : Type → Type :=
  ExceptT WriteError (StateM State)

namespace Receiver

/-- The receiver that keeps everything. -/
def buffer : Receiver (List Char) where
  put text kept := (true, kept ++ text)
  put_nil := by simp
  put_append := by simp

/-- Hand over a piece of text, and end the emission if it is refused. -/
def send
    (receiver : Receiver State)
    (text : List Char) :
    Emission State Unit :=
  fun state =>
    match receiver.put text state with
    | (true, later) => (.ok (), later)
    | (false, later) => (.error .refused, later)

/-- Hand over the text of an output in one piece, and go on as the output does. -/
def handOver
    (receiver : Receiver State)
    (output : Output Result) :
    Emission State Result := do
  receiver.send output.text
  match output.outcome with
  | .ok value => return value
  | .error error => throw (.render error)

/-- Hand over items with a space between each two, behind a lead when there are any. -/
def sendSpaced
    (receiver : Receiver State)
    (lead : List Char)
    (emit : Item → Emission State Unit) :
    List Item →
    Emission State Unit
  | [] => return ()
  | first :: rest => do
      receiver.send lead
      emit first
      rest.forM fun next => do
        receiver.send [' ']
        emit next

end Receiver

end BuildGraph.Ninja
