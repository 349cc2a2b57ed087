import BuildGraph.CommandLine.Options
import BuildGraph.Files.Name
import BuildGraph.Files.Operations
import BuildGraph.Ninja.Error
import BuildGraph.Ninja.File
import BuildGraph.Plan.Apply
import BuildGraph.Plan.Diagnostic
import BuildGraph.Plan.Reader

namespace BuildGraph

/-!
# Running the program

A run reads a plan, declares what it lists and writes the build file.  A build file on
disk is first written to a temporary file beside it, which takes its place only when
everything has been written.  So a failed run leaves nothing behind, once its failure is let
go of.
-/

/-- Why a run failed. -/
inductive Failure where
  /-- The plan cannot be reached. -/
  | access (plan : String) (error : Files.AccessError)
  /-- The plan is no text. -/
  | notText (plan : String)
  /-- The text is no plan. -/
  | unreadable (plan : String) (problem : Plan.Unreadable)
  /-- The build file rejects an entry of the plan. -/
  | rejected (plan : String) (rejection : Plan.Rejection)
  /-- The build file cannot be written to the standard output. -/
  | printing (error : Ninja.WriteError)
  /-- No temporary file can be created. -/
  | creating (folder : String) (error : Files.AccessError)
  /-- The build file cannot be written to a file. -/
  | rendering (output : String) (error : Ninja.WriteError)
  /-- The temporary file cannot take its place. -/
  | moving (output : String) (error : Files.AccessError)
  deriving DecidableEq

/-- What is said about an unreadable plan, from the outside in. -/
def Plan.Unreadable.chain (name : String) : Plan.Unreadable → List String
  | .malformed => [Plan.unreadable name]
  | .mismatch reason =>
      let problem : Plan.StructureProblem := { reason := reason.message }
      [Plan.unreadable name, problem.message name, reason.message]

/-- What is said about a failure, from the outside in. -/
def Failure.chain : Failure → List String
  | .access plan error => ["failed to read build plan " ++ plan, error.message]
  | .notText plan =>
      ["failed to read build plan " ++ plan, "stream did not contain valid UTF-8"]
  | .unreadable plan problem => problem.chain plan
  | .rejected plan rejection => ("applying build plan " ++ plan) :: rejection.chain
  | .printing error => "writing Ninja file to standard output" :: error.chain
  | .creating folder error =>
      ["creating temporary file in " ++ folder, error.message]
  | .rendering output error => ("rendering " ++ output) :: error.chain
  | .moving output error =>
      ["writing Ninja file to " ++ output,
        "failed to persist temporary file: " ++ error.message, error.message]

/--
A failure as a run returns it.

A temporary file that cannot take its place lives on in the failure that tells so.
-/
structure Raised (Temporary : Type) where
  failure : Failure
  held : Option Temporary := none

/-- Let go of a failure; a temporary file that is held by it is removed. -/
def Raised.release
    [Monad Effect]
    (files : Files.Operations Effect Temporary)
    (raised : Raised Temporary) :
    Effect Unit :=
  match raised.held with
  | none => return ()
  | some temporary => files.remove temporary

namespace Run

/-- The format of a plan, by the name of its file. -/
def planFormat (name : String) : Plan.Format :=
  if Files.extension? name = some "json" then .json else .yaml

/-- The build file that the contents of a plan describe. -/
def buildFile
    (options : CommandLine.Options)
    (contents : ByteArray) :
    Except Failure BuildFile := do
  let text ←
    match String.fromUTF8? contents with
    | some text => pure text
    | none => throw (.notText options.file)
  let plan ←
    (Plan.ofText (planFormat options.file) text).mapError (.unreadable options.file)
  (plan.buildFile options.platform).mapError (.rejected options.file)

/--
How writing an output ends, by what was reported when it was written and flushed.

A failure of the stream hides everything after it.  Flushing is tried in any case, but its
failure is reported only if nothing else failed.
-/
def ending
    (written : Except Files.AccessError Unit)
    (outcome : Except Ninja.RenderError Unit)
    (flushed : Except Files.AccessError Unit) :
    Except Ninja.WriteError Unit :=
  match written, outcome, flushed with
  | .error fault, _, _ => .error (.stream fault.message)
  | .ok (), .error error, _ => .error (.render error)
  | .ok (), .ok (), .error fault => .error (.stream fault.message)
  | .ok (), .ok (), .ok () => .ok ()

/-- Write an output to a stream, as far as it goes, and flush the stream in any case. -/
def writeTo
    [Monad Effect]
    (write : List Char → Effect (Except Files.AccessError Unit))
    (flush : Effect (Except Files.AccessError Unit))
    (output : Ninja.Output Unit) :
    Effect (Except Ninja.WriteError Unit) := do
  let written ← write output.text
  let flushed ← flush
  return ending written output.outcome flushed

/-- Write an output to the standard output. -/
def print
    [Monad Effect]
    (files : Files.Operations Effect Temporary)
    (output : Ninja.Output Unit) :
    Effect (Except (Raised Temporary) Unit) := do
  match ← writeTo files.print files.flushPrinted output with
  | .error error => return .error { failure := .printing error }
  | .ok () => return .ok ()

/-- Move a temporary file to its place; if that fails, the failure holds the file. -/
def putInPlace
    [Monad Effect]
    (files : Files.Operations Effect Temporary)
    (name : String)
    (temporary : Temporary) :
    Effect (Except (Raised Temporary) Unit) := do
  match ← files.move temporary name with
  | .error error =>
      return .error { failure := .moving name error, held := some temporary }
  | .ok () => return .ok ()

/-- Write an output to a temporary file, and put that in its place if it is complete. -/
def save
    [Monad Effect]
    (files : Files.Operations Effect Temporary)
    (name : String)
    (output : Ninja.Output Unit) :
    Effect (Except (Raised Temporary) Unit) := do
  let folder := Files.folderName name
  match ← files.createTemporary folder with
  | .error error => return .error { failure := .creating folder error }
  | .ok temporary =>
      match ← writeTo (files.write temporary) (files.flush temporary) output with
      | .error error =>
          files.remove temporary
          return .error { failure := .rendering name error }
      | .ok () => putInPlace files name temporary

end Run

/-- Read the plan, and write the build file that it describes. -/
def run
    [Monad Effect]
    (files : Files.Operations Effect Temporary)
    (options : CommandLine.Options) :
    Effect (Except (Raised Temporary) Unit) := do
  match ← files.read options.file with
  | .error error => return .error { failure := .access options.file error }
  | .ok contents =>
      match Run.buildFile options contents with
      | .error failure => return .error { failure }
      | .ok file =>
          if options.writesStandardOutput then
            Run.print files (Ninja.writeFile file)
          else
            Run.save files options.output (Ninja.writeFile file)

end BuildGraph
