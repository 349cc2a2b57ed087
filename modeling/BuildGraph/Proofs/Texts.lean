import BuildGraph.Command.Basic

namespace BuildGraph

/-!
# The texts of values

However deep a value is nested, in the end it is made of texts.  A check for line breaks looks
at every one of them, in order, and reports the first that has a line break; the shape around
the texts makes no difference to it.
-/

namespace Text

/-- The first of several texts that has a line break, if one has. -/
def firstBroken (texts : List String) : Option String :=
  texts.find? fun text => '\n' ∈ text.toList

/-- The outcome of a check that looks at several texts in order. -/
def checkTexts (texts : List String) : Except IllegalNewline Unit :=
  match firstBroken texts with
  | none => .ok ()
  | some text => .error { text }

/-- None of several texts has a line break just if each of them is on a single line. -/
theorem firstBroken_eq_none_iff
    {texts : List String} :
    firstBroken texts = none ↔ ∀ text ∈ texts, '\n' ∉ text.toList := by
  simp [firstBroken]

/-- Behind texts without a line break the search goes on. -/
theorem firstBroken_append
    (first second : List String) :
    firstBroken (first ++ second) = (firstBroken first).or (firstBroken second) :=
  List.find?_append

theorem checkTexts_append
    (first second : List String) :
    checkTexts (first ++ second) = checkTexts first >>= fun _ => checkTexts second := by
  rw [checkTexts, checkTexts, firstBroken_append]
  cases firstBroken first <;> rfl

theorem checkTexts_singleton
    (text : String) :
    checkTexts [text] = checkSingleLine text.toList := by
  by_cases broken : '\n' ∈ text.toList
  · simp [checkTexts, firstBroken, checkSingleLine, broken]
  · simp [checkTexts, firstBroken, checkSingleLine, broken]

theorem checkTexts_cons
    (text : String)
    (rest : List String) :
    checkTexts (text :: rest) = checkSingleLine text.toList >>= fun _ => checkTexts rest := by
  rw [← checkTexts_singleton, ← checkTexts_append, List.singleton_append]

end Text

/-! ## Fragments -/

namespace Fragment

mutual

/-- The texts that a fragment is made of, in order; a path brings its suffix. -/
def texts : Fragment → List String
  | .leaf piece => [piece.text]
  | .path place => [place.suffix]
  | .concat pieces => textsOf pieces

/-- The texts of several fragments, in order. -/
def textsOf : List Fragment → List String
  | [] => []
  | fragment :: rest => fragment.texts ++ textsOf rest

end

mutual

/-- The check of a fragment looks at its texts. -/
theorem check_eq_checkTexts :
    ∀ fragment : Fragment, fragment.check = Text.checkTexts fragment.texts
  | .leaf piece => by
      rw [check, texts, Text.checkTexts_singleton]
  | .path place => by
      rw [check, texts, Text.checkTexts_singleton, Path.check]
  | .concat pieces => by
      rw [check, texts]
      exact checkAll_eq_checkTexts pieces

theorem checkAll_eq_checkTexts :
    ∀ fragments : List Fragment, checkAll fragments = Text.checkTexts (textsOf fragments)
  | [] => rfl
  | fragment :: rest => by
      rw [checkAll, textsOf, Text.checkTexts_append, check_eq_checkTexts fragment,
        checkAll_eq_checkTexts rest]

end

end Fragment

/-! ## Commands and values -/

/-- The texts of a binding: its name, and then those of its value. -/
def bindingTexts (binding : String × Fragment) : List String :=
  binding.1 :: binding.2.texts

mutual

/-- The texts of an argument; a tool brings its name and the texts of its invocation. -/
def Argument.texts : Argument → List String
  | .text fragment => fragment.texts
  | .tool name invocation => name :: invocation.texts

/-- The texts of several arguments, in order. -/
def Argument.textsOf : List Argument → List String
  | [] => []
  | argument :: rest => argument.texts ++ Argument.textsOf rest

/-- The texts of a command line, in order. -/
def Line.texts : Line → List String
  | .arguments arguments | .shellList arguments => Argument.textsOf arguments
  | .script script => script.texts
  | .nested commands => commands.texts

/-- The texts of several command lines, in order. -/
def Line.textsOf : List Line → List String
  | [] => []
  | line :: rest => line.texts ++ Line.textsOf rest

/-- The texts of a command: those of its bindings, and then those of its lines. -/
def Commands.texts : Commands → List String
  | .mk environment first rest =>
      environment.entries.flatMap bindingTexts ++ (first.texts ++ Line.textsOf rest)

/-- The texts of a value, in order. -/
def Value.texts : Value → List String
  | .text fragment => fragment.texts
  | .words arguments => Argument.textsOf arguments
  | .sequence commands => commands.texts

end

theorem Argument.textsOf_eq_flatMap
    (arguments : List Argument) :
    Argument.textsOf arguments = arguments.flatMap Argument.texts := by
  induction arguments with
  | nil =>
      rfl
  | cons argument rest inductionHypothesis =>
      rw [Argument.textsOf, inductionHypothesis, List.flatMap_cons]

theorem checkBindings_eq_checkTexts
    (bindings : List (String × Fragment)) :
    checkBindings bindings = Text.checkTexts (bindings.flatMap bindingTexts) := by
  induction bindings with
  | nil =>
      rfl
  | cons binding rest inductionHypothesis =>
      rw [checkBindings, inductionHypothesis, List.flatMap_cons, bindingTexts,
        List.cons_append, Text.checkTexts_cons, Text.checkTexts_append,
        Fragment.check_eq_checkTexts]

mutual

theorem Argument.check_eq_checkTexts :
    ∀ argument : Argument, argument.check = Text.checkTexts argument.texts
  | .text fragment => by
      rw [Argument.check, Argument.texts]
      exact fragment.check_eq_checkTexts
  | .tool name invocation => by
      rw [Argument.check, Argument.texts, Text.checkTexts_cons,
        Value.check_eq_checkTexts invocation]

theorem Argument.checkAll_eq_checkTexts :
    ∀ arguments : List Argument,
      Argument.checkAll arguments = Text.checkTexts (Argument.textsOf arguments)
  | [] => rfl
  | argument :: rest => by
      rw [Argument.checkAll, Argument.textsOf, Text.checkTexts_append,
        Argument.check_eq_checkTexts argument, Argument.checkAll_eq_checkTexts rest]

theorem Line.check_eq_checkTexts :
    ∀ line : Line, line.check = Text.checkTexts line.texts
  | .arguments arguments | .shellList arguments => by
      rw [Line.check, Line.texts]
      exact Argument.checkAll_eq_checkTexts arguments
  | .script script => by
      rw [Line.check, Line.texts]
      exact script.check_eq_checkTexts
  | .nested commands => by
      rw [Line.check, Line.texts]
      exact Commands.check_eq_checkTexts commands

theorem Line.checkAll_eq_checkTexts :
    ∀ lines : List Line, Line.checkAll lines = Text.checkTexts (Line.textsOf lines)
  | [] => rfl
  | line :: rest => by
      rw [Line.checkAll, Line.textsOf, Text.checkTexts_append, Line.check_eq_checkTexts line,
        Line.checkAll_eq_checkTexts rest]

theorem Commands.check_eq_checkTexts :
    ∀ commands : Commands, commands.check = Text.checkTexts commands.texts
  | .mk environment first rest => by
      rw [Commands.check, Commands.texts, Text.checkTexts_append, Text.checkTexts_append,
        checkBindings_eq_checkTexts, Line.check_eq_checkTexts first,
        Line.checkAll_eq_checkTexts rest]

/-- The check of a value looks at its texts, whatever they are part of. -/
theorem Value.check_eq_checkTexts :
    ∀ value : Value, value.check = Text.checkTexts value.texts
  | .text fragment => by
      rw [Value.check, Value.texts]
      exact fragment.check_eq_checkTexts
  | .words arguments => by
      rw [Value.check, Value.texts]
      exact Argument.checkAll_eq_checkTexts arguments
  | .sequence commands => by
      rw [Value.check, Value.texts]
      exact Commands.check_eq_checkTexts commands

end

end BuildGraph
