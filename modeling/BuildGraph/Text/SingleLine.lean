import BuildGraph.Text.Quoted

namespace BuildGraph.Text

/-!
# Text on a single line

A build file is read line by line, so no value in it may contain a line break.
Carriage returns and other control characters do not end a line.
-/

/-- A line break in text that has to stay on one line. -/
structure IllegalNewline where
  text : String
  deriving Repr, DecidableEq

/-- What is wrong with the text, for a reader. -/
def IllegalNewline.message (illegal : IllegalNewline) : String :=
  "illegal newline in " ++ quoted illegal.text

/-- Accept text without a line break, and name the offending text otherwise. -/
def checkSingleLine (text : List Char) : Except IllegalNewline Unit :=
  if '\n' ∈ text then
    .error { text := String.ofList text }
  else
    .ok ()

/-- Text is accepted exactly when it has no line break. -/
theorem checkSingleLine_eq_ok_iff
    {text : List Char} :
    checkSingleLine text = .ok () ↔ '\n' ∉ text := by
  unfold checkSingleLine
  split <;> simp_all

/-- Rejected text is reported whole. -/
theorem checkSingleLine_eq_error_iff
    {text : List Char}
    {illegal : IllegalNewline} :
    checkSingleLine text = .error illegal ↔
      '\n' ∈ text ∧ illegal = { text := String.ofList text } := by
  unfold checkSingleLine
  split <;> simp_all [eq_comm]

end BuildGraph.Text
