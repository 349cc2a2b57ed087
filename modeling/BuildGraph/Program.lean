import BuildGraph.CommandLine.Help
import BuildGraph.Run

namespace BuildGraph

/-!
# The program

The program answers questions about itself, refuses wrong arguments, and otherwise runs.
Its exit code tells which of these happened.
-/

/-- How the program ends. -/
inductive Ending (Temporary : Type) where
  | success
  | failure (cause : Raised Temporary)
  | refusal (reason : CommandLine.Stop)

namespace Ending

/-- The exit code of the program. -/
def code : Ending Temporary → UInt32
  | .success => 0
  | .failure _ => 1
  | .refusal _ => 2

/-- What is said about a failure, in a single line. -/
def report? : Ending Temporary → Option String
  | .failure cause => some (": ".intercalate cause.failure.chain)
  | .success | .refusal _ => none

/-- Let go of what an ending holds, once it has been told. -/
def release
    [Monad Effect]
    (files : Files.Operations Effect Temporary) :
    Ending Temporary →
    Effect Unit
  | .failure cause => cause.release files
  | .success | .refusal _ => return ()

end Ending

/-- Print an answer; that nobody can read it is no failure. -/
def printAnswer
    [Monad Effect]
    (files : Files.Operations Effect Temporary)
    (text : String) :
    Effect (Ending Temporary) := do
  let _ ← files.print text.toList
  let _ ← files.flushPrinted
  return .success

/-- Do what some arguments ask for. -/
def program
    [Monad Effect]
    (files : Files.Operations Effect Temporary)
    (arguments : List String) :
    Effect (Ending Temporary) := do
  match CommandLine.readArguments arguments with
  | .error (.help isDetailed) => printAnswer files (CommandLine.helpText isDetailed)
  | .error .version => printAnswer files CommandLine.versionText
  | .error reason => return .refusal reason
  | .ok options =>
      match ← run files options with
      | .ok () => return .success
      | .error cause => return .failure cause

end BuildGraph
