import BuildGraph.Ninja.Output

namespace BuildGraph.Ninja

/-!
# Errors of writing

Writing fails because of a value that has no text, or because the place that the text
goes to takes no more.
-/

/-- Why a build file was not written. -/
inductive WriteError where
  /-- A value cannot be written. -/
  | render (error : RenderError)
  /-- The stream failed for the given reason. -/
  | stream (reason : String)
  /-- The place for the text refused it. -/
  | refused
  deriving Repr, DecidableEq

/-- What is wrong, for a reader. -/
def RenderError.message : RenderError → String
  | .illegalNewline illegal => illegal.message
  | .unconvertedTool name =>
      "cannot render unconverted tool reference \x60" ++ name ++ "\x60"

/-- The code under which the error is documented. -/
def RenderError.code : RenderError → String
  | .illegalNewline _ => "ninja_synth::syntax::illegal_newline"
  | .unconvertedTool _ => "ninja_synth::write::type_mismatch"

/-- Advice on how to mend the value. -/
def RenderError.help : RenderError → Option String
  | .illegalNewline _ => none
  | .unconvertedTool _ =>
      some "declare the value through BuildFile so tool references are converted"

namespace WriteError

/-- What is wrong, for a reader. -/
def message : WriteError → String
  | .render error => error.message
  | .stream _ => "failed to write build file"
  | .refused => "formatting sink refused a write"

/-- What is said about an error, from the outside in. -/
def chain (error : WriteError) : List String :=
  match error with
  | .stream reason => [error.message, reason]
  | .render _ | .refused => [error.message]

/-- The code under which the error is documented. -/
def code : WriteError → String
  | .render error => error.code
  | .stream _ => "ninja_synth::write::io"
  | .refused => "ninja_synth::write::sink"

/-- Advice on how to mend the cause. -/
def help : WriteError → Option String
  | .render error => error.help
  | .stream _ | .refused => none

end WriteError

end BuildGraph.Ninja
