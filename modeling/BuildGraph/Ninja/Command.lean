import BuildGraph.Command.Basic
import BuildGraph.Ninja.Fragment

namespace BuildGraph.Ninja

/-!
# Writing commands and values

The lines of a command are joined by `&&`, with its environment bindings in front as
`export` lines.  On platforms of the Windows family a command that needs a shell is put
between `cmd /s /c "` and `"`.

A single value is never quoted for the shell, words are quoted one by one, and commands
quote themselves.
-/

/-- Write one argument; a tool has no text of its own. -/
def writeArgument
    (target : Target)
    (position : Position) :
    Argument →
    Output Unit
  | .text fragment => do
      let _ ← writeFragment target position .quote fragment
  | .tool name _ => Output.stop (.unconvertedTool name)

/-- Write arguments with a space between each two, behind a lead when there are any. -/
def writeArguments
    (target : Target)
    (position : Position)
    (lead : List Char)
    (arguments : List Argument) :
    Output Unit :=
  match arguments with
  | [] => return ()
  | arguments => do
      Output.write lead
      Output.separated [' '] (writeArgument target position) arguments

/-- Write an environment binding as a line of its own. -/
def writeBinding
    (target : Target)
    (binding : String × Fragment) :
    Output Unit := do
  Output.write "export ".toList
  let _ ← writeFragment target .shell .quote
    (.concat [.plain binding.1, .shellLiteral "=", binding.2])

/-- Whether a command is put into the envelope of a Windows shell. -/
def needsEnvelope (target : Target) (commands : Commands) : Bool :=
  commands.needsShell && target.platform.family = .windows

/-- What stands between two lines that run one after the other. -/
def lineSeparator : List Char := " && ".toList

/-- Write environment bindings, each with the separator behind it. -/
def writeBindings
    (target : Target) :
    List (String × Fragment) →
    Output Unit
  | [] => return ()
  | binding :: rest => do
      writeBinding target binding
      Output.write lineSeparator
      writeBindings target rest

mutual

/-- Write one line of a command. -/
def writeLine
    (target : Target) :
    Line →
    Output Unit
  | .arguments arguments | .shellList arguments =>
      writeArguments target .shell [] arguments
  | .script script => do
      let _ ← writeFragment target .shell .never script
  | .nested commands => writeCommands target commands

/-- Write lines, each behind a separator. -/
def writeFurtherLines
    (target : Target) :
    List Line →
    Output Unit
  | [] => return ()
  | line :: rest => do
      Output.write lineSeparator
      writeLine target line
      writeFurtherLines target rest

/-- Write a command: its bindings and lines, in an envelope where one is needed. -/
def writeCommands
    (target : Target) :
    Commands →
    Output Unit
  | .mk environment first rest => do
      let envelope := needsEnvelope target (.mk environment first rest)
      if envelope then
        Output.write "cmd /s /c \"".toList
      writeBindings target environment.entries
      writeLine target first
      writeFurtherLines target rest
      if envelope then
        Output.write "\"".toList

end

/-- Write the right-hand side of an assignment. -/
def writeValue
    (target : Target)
    (position : Position) :
    Value →
    Output Unit
  | .text fragment => do
      let _ ← writeFragment target position .never fragment
  | .words arguments => writeArguments target position [] arguments
  | .sequence commands => writeCommands target commands

end BuildGraph.Ninja
