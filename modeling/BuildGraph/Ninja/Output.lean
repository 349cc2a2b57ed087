import BuildGraph.Text.SingleLine

namespace BuildGraph.Ninja

/-!
# Output of a writer

Writing yields text and then either a result or the reason why it stopped.  The text
that was written before a stop is kept, so what a stream or a file of limited size
receives follows from the output alone.
-/

/-- Why a value cannot be written. -/
inductive RenderError where
  /-- A line break in a value that has to stay on one line. -/
  | illegalNewline (illegal : Text.IllegalNewline)
  /-- A tool that was never replaced by its variable. -/
  | unconvertedTool (name : String)
  deriving Repr, DecidableEq

/-- Text written so far, and the result or the reason why writing stopped. -/
structure Output (Result : Type) where
  text : List Char
  outcome : Except RenderError Result

namespace Output

/-- A result without text. -/
def result (value : Result) : Output Result where
  text := []
  outcome := .ok value

/-- A stop without text. -/
def stop (error : RenderError) : Output Result where
  text := []
  outcome := .error error

/-- Text and nothing else. -/
def write (text : List Char) : Output Unit where
  text
  outcome := .ok ()

/-- Go on after a result; after a stop nothing more is written. -/
def andThen
    (first : Output First)
    (next : First → Output Second) :
    Output Second :=
  match first.outcome with
  | .ok value =>
      let second := next value
      { text := first.text ++ second.text
        outcome := second.outcome }
  | .error error =>
      { text := first.text
        outcome := .error error }

instance : Monad Output where
  pure := result
  bind := andThen

/-- Stop at a line break, and go on without text otherwise. -/
def require (checked : Except Text.IllegalNewline Unit) : Output Unit :=
  match checked with
  | .ok () => result ()
  | .error illegal => stop (.illegalNewline illegal)

/-- Write pieces one after the other. -/
def forEach (write : Item → Output Unit) : List Item → Output Unit
  | [] => result ()
  | item :: rest => do
      write item
      forEach write rest

/-- Write pieces with a separator between each two. -/
def separated
    (separator : List Char)
    (write : Item → Output Unit) :
    List Item →
    Output Unit
  | [] => result ()
  | item :: rest => do
      write item
      forEach
        (fun next => do
          Output.write separator
          write next)
        rest

/-- The whole text, if writing did not stop. -/
def toText (output : Output Unit) : Except RenderError String :=
  output.outcome.map fun _ => String.ofList output.text

@[simp] theorem pure_eq_result
    (value : Result) :
    (pure value : Output Result) = result value :=
  rfl

@[simp] theorem bind_eq_andThen
    (first : Output First)
    (next : First → Output Second) :
    first >>= next = first.andThen next :=
  rfl

@[simp] theorem result_andThen
    (value : First)
    (next : First → Output Second) :
    (result value).andThen next = next value :=
  rfl

@[simp] theorem stop_andThen
    (error : RenderError)
    (next : First → Output Second) :
    (stop error).andThen next = stop error :=
  rfl

/-- What follows written text is written behind it. -/
@[simp] theorem write_andThen
    (text : List Char)
    (next : Unit → Output Second) :
    (write text).andThen next =
      { text := text ++ (next ()).text
        outcome := (next ()).outcome } :=
  rfl

/-- It does not matter how a sequence of three is put together. -/
theorem andThen_assoc
    (first : Output First)
    (next : First → Output Second)
    (last : Second → Output Third) :
    (first.andThen next).andThen last =
      first.andThen fun value => (next value).andThen last := by
  rcases first with ⟨text, _ | value⟩
  · rfl
  · simp only [andThen]
    rcases (next value).outcome with _ | _
    · rfl
    · simp

/-- To go on with the result as it is changes nothing. -/
theorem andThen_result_self
    (output : Output Result) :
    output.andThen result = output := by
  rcases output with ⟨text, _ | value⟩
  · rfl
  · simp [andThen, result]

instance : LawfulMonad Output :=
  LawfulMonad.mk' Output andThen_result_self (fun _ _ => rfl) andThen_assoc

end Output

end BuildGraph.Ninja
