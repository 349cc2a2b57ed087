import BuildGraph.Fragment
import BuildGraph.Table

namespace BuildGraph

/-!
# Commands

A command is one line or several lines that run one after the other, together with
environment bindings.  A lone argument vector without bindings runs directly; anything
else needs a shell.

An argument may refer to a tool.  Declaring a rule or an edge replaces such a reference
by a variable that holds the tool's own invocation.
-/

mutual

/-- One argument of a command line. -/
inductive Argument where
  /-- Text for the shell. -/
  | text (fragment : Fragment)
  /-- A tool, kept in the variable of the given name and invoked by the given value. -/
  | tool (name : String) (invocation : Value)

/-- One line of a command. -/
inductive Line where
  /-- An argument vector. -/
  | arguments (arguments : List Argument)
  /-- An argument vector with shell operators among its arguments. -/
  | shellList (arguments : List Argument)
  /-- A script that is written without shell quoting. -/
  | script (script : Fragment)
  /-- Another command, run in place. -/
  | nested (commands : Commands)

/-- At least one command line, with bindings for all of them. -/
inductive Commands where
  | mk (environment : Table String Fragment) (first : Line) (rest : List Line)

/-- The right-hand side of an assignment. -/
inductive Value where
  /-- A single value. -/
  | text (fragment : Fragment)
  /-- Words with a space between each two. -/
  | words (arguments : List Argument)
  /-- A command. -/
  | sequence (commands : Commands)

end

namespace Commands

/-- The bindings of a command, in order. -/
def environment : Commands → Table String Fragment
  | mk environment _ _ => environment

/-- The lines of a command, in the order in which they run. -/
def lines : Commands → List Line
  | mk _ first rest => first :: rest

/-- A command of a single line. -/
def single (line : Line) : Commands :=
  mk .empty line []

/-- A command of the given lines, if there is one at all. -/
def ofLines? : List Line → Option Commands
  | [] => none
  | first :: rest => some (mk .empty first rest)

/-- The same command with one more line at its end. -/
def andThen : Commands → Line → Commands
  | mk environment first rest, line => mk environment first (rest ++ [line])

/-- The same command with an environment variable bound. -/
def bindEnvironment : Commands → String → Fragment → Commands
  | mk environment first rest, name, value =>
      mk (environment.insert name value) first rest

/-- The command that is just a reference to a variable. -/
def ofVariable (var : Variable) : Commands :=
  single (.arguments [.text var.use])

/-- Whether a command has to run through a shell. -/
def needsShell : Commands → Bool
  | mk environment (.arguments _) [] => !environment.entries.isEmpty
  | _ => true

/-- The bare argument vector of a command that needs no shell, and the command otherwise. -/
def toValue (commands : Commands) : Value :=
  if commands.needsShell then
    .sequence commands
  else
    match commands with
    | mk _ (.arguments arguments) _ => .words arguments
    | commands => .sequence commands

end Commands

/-- Reject environment bindings with a line break in a name or a value. -/
def checkBindings :
    List (String × Fragment) →
    Except Text.IllegalNewline Unit
  | [] => .ok ()
  | (name, value) :: rest => do
      Text.checkSingleLine name.toList
      value.check
      checkBindings rest

mutual

/-- Reject an argument with a line break in it. -/
def Argument.check : Argument → Except Text.IllegalNewline Unit
  | .text fragment => fragment.check
  | .tool name invocation => do
      Text.checkSingleLine name.toList
      invocation.check

/-- Reject arguments with a line break in one of them. -/
def Argument.checkAll : List Argument → Except Text.IllegalNewline Unit
  | [] => .ok ()
  | argument :: rest => do
      argument.check
      Argument.checkAll rest

/-- Reject a command line with a line break in it. -/
def Line.check : Line → Except Text.IllegalNewline Unit
  | .arguments arguments | .shellList arguments => Argument.checkAll arguments
  | .script script => script.check
  | .nested commands => commands.check

/-- Reject command lines with a line break in one of them. -/
def Line.checkAll : List Line → Except Text.IllegalNewline Unit
  | [] => .ok ()
  | line :: rest => do
      line.check
      Line.checkAll rest

/-- Reject a command with a line break in a binding or a line. -/
def Commands.check : Commands → Except Text.IllegalNewline Unit
  | .mk environment first rest => do
      checkBindings environment.entries
      first.check
      Line.checkAll rest

/-- Reject a value with a line break in it. -/
def Value.check : Value → Except Text.IllegalNewline Unit
  | .text fragment => fragment.check
  | .words arguments => Argument.checkAll arguments
  | .sequence commands => commands.check

end

end BuildGraph
