import BuildGraph.Program

namespace BuildGraph

/-!
# The command line

The operations on files are carried out by the system, and the program does the rest.
-/

namespace Main

/-- An error of the system as the program tells it. -/
def accessError : IO.Error → Files.AccessError
  | .noFileOrDirectory .. => .notFound
  | .inappropriateType _ code details =>
      if code = 21 then .isDirectory
      else if code = 20 then .notDirectory
      else .other details
  | .resourceBusy .. => .busy
  | error => .other (toString error)

/-- Carry something out, and keep the error if it fails. -/
def attempt (action : IO Result) : IO (Except Files.AccessError Result) := do
  match ← action.toBaseIO with
  | .ok value => return .ok value
  | .error error => return .error (accessError error)

/-- Carry something out that may fail without harm. -/
def attemptQuietly (action : IO Unit) : IO Unit := do
  discard (attempt action)

/-- A name for a temporary file that is hardly used by anything else. -/
def temporaryName (folder : String) : IO String := do
  return folder ++ "/.tmp" ++ toString (← IO.monoNanosNow)

/-- A temporary file that is open for writing. -/
structure TemporaryFile where
  name : String
  handle : IO.FS.Handle

/-- The operations on the files of the system. -/
def operations : Files.Operations IO TemporaryFile where
  read := fun name => attempt (IO.FS.readBinFile name)
  createTemporary := fun folder => attempt do
    let name ← temporaryName folder
    let handle ← IO.FS.Handle.mk name .writeNew
    return { name, handle }
  write := fun temporary text => attempt (temporary.handle.putStr (String.ofList text))
  flush := fun temporary => attempt temporary.handle.flush
  move := fun temporary name => attempt (IO.FS.rename temporary.name name)
  remove := fun temporary => attemptQuietly (IO.FS.removeFile temporary.name)
  print := fun text => attempt do (← IO.getStdout).putStr (String.ofList text)
  flushPrinted := attempt do (← IO.getStdout).flush

end Main

end BuildGraph

/-- Run the program with the arguments of the command line. -/
def main (arguments : List String) : IO UInt32 := do
  let ending ← BuildGraph.program BuildGraph.Main.operations arguments
  match ending.report? with
  | some report => IO.eprintln report
  | none => pure ()
  match ending with
  | .refusal _ => IO.eprintln "error: wrong arguments; try '--help'"
  | _ => pure ()
  ending.release BuildGraph.Main.operations
  return ending.code
