import BuildGraph.Text.SingleLine

namespace BuildGraph

/-!
# Rejected declarations

Every error names a mistake in one declaration of a build file.
-/

/-- A kind of entry that has a name of its own. -/
inductive EntryKind where
  | variableEntry
  | ruleEntry
  deriving Repr, DecidableEq

/-- What a message calls a kind of entry. -/
def EntryKind.description : EntryKind → String
  | .variableEntry => "variable"
  | .ruleEntry => "rule"

/-- Why a declaration is rejected. -/
inductive BuildError where
  /-- A rule name that is empty or has characters outside of names. -/
  | invalidName (name : String)
  /-- A variable or rule that is declared already. -/
  | alreadyExists (kind : EntryKind) (name : String)
  /-- Outputs that are built already, as they are displayed. -/
  | duplicateOutputs (outputs : List String)
  /-- An edge for a rule that was never declared. -/
  | unknownRule (rule : String)
  /-- A pool other than the console. -/
  | invalidPool (pool : String)
  /-- An edge that builds nothing. -/
  | missingOutputs (rule : String)
  /-- A command without lines. -/
  | emptyCommand
  /-- A value that does not stay on one line. -/
  | illegalNewline (illegal : Text.IllegalNewline)
  deriving Repr, DecidableEq

namespace BuildError

/-- What is wrong with the declaration, for a reader. -/
def message : BuildError → String
  | .invalidName name =>
      "rule name " ++ Text.quoted name ++ " contains invalid characters"
  | .alreadyExists kind name =>
      kind.description ++ " " ++ Text.quoted name ++ " already exists"
  | .duplicateOutputs outputs =>
      "build for " ++ ", ".intercalate outputs ++ " already exists"
  | .unknownRule rule => "unknown rule " ++ Text.quoted rule
  | .invalidPool pool => "unknown pool " ++ Text.quoted pool
  | .missingOutputs rule =>
      "build edge for rule " ++ Text.quoted rule ++ " has no outputs"
  | .emptyCommand => "expected at least one command"
  | .illegalNewline illegal => illegal.message

/-- The code under which the error is documented. -/
def code : BuildError → String
  | .invalidName _ => "ninja_synth::ir::invalid_name"
  | .alreadyExists _ _ => "ninja_synth::ir::already_exists"
  | .duplicateOutputs _ => "ninja_synth::ir::duplicate_output"
  | .unknownRule _ => "ninja_synth::ir::unknown_rule"
  | .invalidPool _ => "ninja_synth::ir::invalid_pool"
  | .missingOutputs _ => "ninja_synth::ir::missing_outputs"
  | .emptyCommand => "ninja_synth::ir::empty_command"
  | .illegalNewline _ => "ninja_synth::syntax::illegal_newline"

/-- Advice on how to mend the declaration. -/
def help : BuildError → Option String
  | .invalidName _ =>
      some "rule names may only use ASCII letters, digits and underscores"
  | .invalidPool _ =>
      some "only the built-in \"console\" pool is supported"
  | _ => none

end BuildError

end BuildGraph
