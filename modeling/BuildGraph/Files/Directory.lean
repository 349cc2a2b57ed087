import BuildGraph.Files.Device
import BuildGraph.Files.Name
import BuildGraph.Table

namespace BuildGraph.Files

/-!
# Directories

A directory holds files and folders, each at its place below the top folder.  The
operations on files are given their meaning here: names are followed step by step, a
temporary file gets a name that is longer than all others, and a file that is moved
replaces another one at its new place.

Names may lead out of the top folder.  Of what is there only the folders on the way up
and the root are known, and what has been put there.
-/

/--
The folders on the way to a file or a folder, and its own name.

Two points stand for a step up from the top folder, and a slash for the root.
-/
abbrev Location := List String

/-- The step to the folder above another one. -/
def upward : String := ".."

/-- The step to the root of all files. -/
def root : String := "/"

/-- Whether a location is the top folder or a folder above it, or the root. -/
def isAbove (location : Location) : Bool :=
  location.all fun step => step = upward || step = root

/-- Whether a location is below the top folder. -/
def isBelow (location : Location) : Bool :=
  location.head?.any fun step => step ≠ upward && step ≠ root

/-- What stands at a location. -/
inductive Entry where
  | folder
  | file (contents : ByteArray)

/-- Files and folders below a top folder. -/
abbrev Directory := Table Location Entry

namespace Directory

/-- Put a folder at a location, and all folders on the way to it. -/
def addFolder (directory : Directory) (location : Location) : Directory :=
  (List.range location.length).foldl
    (fun directory depth => directory.insert (location.take (depth + 1)) .folder)
    directory

/-- Put a file at a location, and all folders on the way to it. -/
def addFile
    (directory : Directory)
    (location : Location)
    (contents : ByteArray) :
    Directory :=
  (directory.addFolder location.dropLast).insert location (.file contents)

/-- What stands at a location; the top folder and those above it are always there. -/
def entryAt? (directory : Directory) (location : Location) : Option Entry :=
  if isAbove location then some .folder else directory.find? location

/-- Check that a folder stands at a location. -/
def checkFolder (directory : Directory) (location : Location) : Except AccessError Unit :=
  match directory.entryAt? location with
  | none => .error .notFound
  | some (.file _) => .error .notDirectory
  | some .folder => .ok ()

/-- The most bytes that a step may have. -/
def stepLimit : Nat := 255

/-- The most bytes that a whole name may have. -/
def nameLimit : Nat := 4095

/-- Take a single step from a folder. -/
def stepTo
    (directory : Directory)
    (location : Location)
    (step : String) :
    Except AccessError Location := do
  directory.checkFolder location
  if step = "." then
    return location
  else if step = upward then
    return if isAbove location then location ++ [upward] else location.dropLast
  else if stepLimit < step.utf8ByteSize then
    throw .nameTooLong
  else
    return location ++ [step]

/-- Whether a name holds a null character, which no name may. -/
def holdsNull (name : String) : Bool := name.toList.contains '\u0000'

/-- The location at which the first step of a name is taken. -/
def startOf (name : String) : Location := if isAbsolute name then [root] else []

/-- The location that a name stands for. -/
def locate (directory : Directory) (name : String) : Except AccessError Location :=
  if holdsNull name then
    .error .nullInName
  else if name = "" then
    .error .notFound
  else if nameLimit < name.utf8ByteSize then
    .error .nameTooLong
  else
    (steps name).foldlM directory.stepTo (startOf name)

/-- The contents of the file with a name. -/
def read (directory : Directory) (name : String) : Except AccessError ByteArray := do
  match directory.entryAt? (← directory.locate name) with
  | none => throw .notFound
  | some .folder => throw .isDirectory
  | some (.file contents) => return contents

/-- The length of the longest name in a directory. -/
def longestName (directory : Directory) : Nat :=
  (directory.keys.map fun location => (location.getLastD "").length).foldr max 0

/-- A name that nothing in a directory has. -/
def unusedName (directory : Directory) : String :=
  String.ofList (".tmp".toList ++ List.replicate directory.longestName 'x')

/-- The bytes by which the name of a temporary file is longer than that of its folder. -/
def temporaryBytes : Nat := 11

/-- Create an empty file under an unused name in a folder. -/
def createTemporary
    (directory : Directory)
    (folder : String) :
    Except AccessError (Location × Directory) := do
  if ¬ holdsNull folder ∧ nameLimit < folder.utf8ByteSize + temporaryBytes then
    throw .nameTooLong
  let location ← directory.locate folder
  directory.checkFolder location
  let temporary := location ++ [directory.unusedName]
  return (temporary, directory.insert temporary (.file .empty))

/-- Put bytes behind the contents of the file at a location. -/
def append
    (directory : Directory)
    (location : Location)
    (bytes : List UInt8) :
    Directory :=
  match directory.entryAt? location with
  | some (.file contents) =>
      directory.insert location (.file (contents ++ bytes.toByteArray))
  | _ => directory

/-- Remove what stands at a location. -/
def remove (directory : Directory) (location : Location) : Directory :=
  directory.erase location

/-- The location that a file gets under a new name. -/
def newLocation (directory : Directory) (name : String) : Except AccessError Location := do
  if holdsNull name then
    throw .invalidArgument
  if name = "" then
    throw .notFound
  if nameLimit < name.utf8ByteSize then
    throw .nameTooLong
  match (pieces name).filter (· ≠ "") |>.reverse with
  | [] => throw .busy
  | last :: before =>
      let folder ← before.reverse.foldlM directory.stepTo (startOf name)
      directory.checkFolder folder
      if last = "." ∨ last = upward then
        throw .busy
      let location ← directory.stepTo folder last
      if name.toList.getLast? = some '/' then
        throw .notDirectory
      match directory.entryAt? location with
      | some .folder => throw .isDirectory
      | _ => return location

/-- Give a file a new name, and replace what had it before. -/
def move
    (directory : Directory)
    (temporary : Location)
    (name : String) :
    Except AccessError Directory := do
  let location ← directory.newLocation name
  match directory.entryAt? temporary with
  | some entry => return (directory.erase temporary).insert location entry
  | none => throw .notFound

end Directory

/-- A directory on a disk, and the bytes on the standard output. -/
structure World where
  directory : Directory
  disk : Device := {}
  printed : List UInt8 := []
  standardOutput : Device := {}

namespace World

/-- The operations on a directory. -/
def operations : Operations (StateM World) Location where
  read := fun name => do
    return (← get).directory.read name
  createTemporary := fun folder => do
    match (← get).directory.createTemporary folder with
    | .error error => return .error error
    | .ok (temporary, directory) =>
        modify fun world => { world with directory }
        return .ok temporary
  write := fun temporary text => do
    let world ← get
    let bytes := Text.encode text
    set { world with
      directory := world.directory.append temporary (world.disk.arriving bytes)
      disk := world.disk.after bytes }
    return world.disk.write bytes
  flush := fun _ => do
    return (← get).disk.flush
  move := fun temporary name => do
    match (← get).directory.move temporary name with
    | .error error => return .error error
    | .ok directory =>
        modify fun world => { world with directory }
        return .ok ()
  remove := fun temporary =>
    modify fun world => { world with directory := world.directory.remove temporary }
  print := fun text => do
    let world ← get
    let bytes := Text.encode text
    set { world with
      printed := world.printed ++ world.standardOutput.arriving bytes
      standardOutput := world.standardOutput.after bytes }
    return world.standardOutput.write bytes
  flushPrinted := do
    return (← get).standardOutput.flush

end World

end BuildGraph.Files
