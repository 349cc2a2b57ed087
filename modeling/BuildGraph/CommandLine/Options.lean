import BuildGraph.Platform

namespace BuildGraph.CommandLine

/-!
# Options

The program is told by options where the plan is, where the build file goes, and for
which platform it is written.  An option has a long name behind two hyphens, and most
have a short one behind a single hyphen.  Short options may be written together, and a
value may be attached to its option.

Arguments are read one after the other.  A value in an argument of its own counts only
when the next option, or the end, shows that it is complete.
-/

/-- What the program is told to do. -/
structure Options where
  /-- Where the plan is. -/
  file : String := "build.plan.yml"
  /-- Where the build file goes. -/
  output : String := "build.ninja"
  /-- The platform that the build file is for, if it is not left to the plan. -/
  platform : Option Platform := none
  /-- Whether to tell what is being done. -/
  isVerbose : Bool := false
  deriving Repr, DecidableEq

/-- Whether the build file goes to the standard output. -/
def Options.writesStandardOutput (options : Options) : Bool :=
  options.output = "-"

/-- Why the program does not run with some arguments. -/
inductive Stop where
  /-- It is asked for help, in a short or in a detailed form. -/
  | help (isDetailed : Bool)
  /-- It is asked for its version. -/
  | version
  /-- A value is missing or none of the possible ones. -/
  | invalidValue
  /-- There is no such option. -/
  | unknownArgument
  /-- An option is given twice. -/
  | repeatedOption
  /-- A value is given to an option that takes none. -/
  | needlessValue
  deriving Repr, DecidableEq

/-- Options that take a value. -/
inductive Setting where
  | file
  | output
  | platform
  deriving Repr, DecidableEq

/-- Options that take no value. -/
inductive Switch where
  | verbose
  | help
  | version
  deriving Repr, DecidableEq

/-- An option as it is named. -/
inductive Named where
  | setting (setting : Setting)
  | switch (switch : Switch)
  deriving Repr, DecidableEq

/-- Options by their long names. -/
def longNames : List (String × Named) :=
  [("file", .setting .file), ("output", .setting .output),
    ("platform", .setting .platform), ("verbose", .switch .verbose),
    ("help", .switch .help), ("version", .switch .version)]

/-- Options by their short names. -/
def shortNames : List (Char × Named) :=
  [('f', .setting .file), ('o', .setting .output), ('v', .switch .verbose),
    ('h', .switch .help), ('V', .switch .version)]

/-- What some arguments have told. -/
structure Given where
  file? : Option String := none
  output? : Option String := none
  platform? : Option Platform := none
  isVerbose : Bool := false
  /-- The latest option, if it takes a value from an argument of its own. -/
  pending? : Option (Setting × Option String) := none
  /-- Whether no more options may come. -/
  isClosed : Bool := false
  deriving Repr, DecidableEq

namespace Given

/-- Give a value to an option that has none yet. -/
def assign
    (given : Given)
    (setting : Setting)
    (value : String) :
    Except Stop Given :=
  match setting with
  | .file =>
      if given.file?.isSome then .error .repeatedOption
      else .ok { given with file? := some value }
  | .output =>
      if given.output?.isSome then .error .repeatedOption
      else .ok { given with output? := some value }
  | .platform =>
      if given.platform?.isSome then
        .error .repeatedOption
      else
        match Platform.ofName? value with
        | some platform => .ok { given with platform? := some platform }
        | none => .error .invalidValue

/-- Let the value of the latest option count. -/
def settle (given : Given) : Except Stop Given :=
  match given.pending? with
  | none => .ok given
  | some (_, none) => .error .invalidValue
  | some (setting, some value) => { given with pending? := none }.assign setting value

/-- Take an option with a value that is attached to it. -/
def takeAttached
    (given : Given)
    (setting : Setting)
    (value : String) :
    Except Stop Given := do
  (← given.settle).assign setting value

/-- Take an option whose value is the next argument. -/
def takeSetting (given : Given) (setting : Setting) : Except Stop Given := do
  return { ← given.settle with pending? := some (setting, none) }

/-- Take an option that has no value. -/
def takeSwitch
    (given : Given)
    (switch : Switch)
    (isLong : Bool) :
    Except Stop Given := do
  let settled ← given.settle
  match switch with
  | .verbose =>
      if settled.isVerbose then throw .repeatedOption
      else return { settled with isVerbose := true }
  | .help => throw (.help isLong)
  | .version => throw .version

/-- Take an argument without the two hyphens in front of it. -/
def takeLong (given : Given) (argument : List Char) : Except Stop Given :=
  let name := String.ofList (argument.takeWhile (· ≠ '='))
  match longNames.lookup name, argument.dropWhile (· ≠ '=') with
  | none, _ => .error .unknownArgument
  | some (.setting setting), [] => given.takeSetting setting
  | some (.setting setting), _ :: value => given.takeAttached setting (String.ofList value)
  | some (.switch switch), [] => given.takeSwitch switch true
  | some (.switch _), _ :: _ => .error .needlessValue

/-- Take short options that are written together. -/
def takeShort (given : Given) : List Char → Except Stop Given
  | [] => .ok given
  | name :: rest =>
      match shortNames.lookup name with
      | none => .error .unknownArgument
      | some (.switch switch) => do
          takeShort (← given.takeSwitch switch false) rest
      | some (.setting setting) =>
          match rest with
          | [] => given.takeSetting setting
          | '=' :: value => given.takeAttached setting (String.ofList value)
          | value => given.takeAttached setting (String.ofList value)

/-- Take an argument that is no option. -/
def takeValue (given : Given) (argument : String) : Except Stop Given :=
  match given.pending? with
  | some (setting, none) =>
      .ok { given with pending? := some (setting, some argument) }
  | _ => .error .unknownArgument

/-- Take the next argument. -/
def take (given : Given) (argument : String) : Except Stop Given :=
  if given.isClosed then
    .error .unknownArgument
  else
    match argument.toList with
    | ['-', '-'] => .ok { given with isClosed := true }
    | '-' :: '-' :: long => given.takeLong long
    | '-' :: name :: rest => given.takeShort (name :: rest)
    | _ => given.takeValue argument

/-- The options that have been given, and the usual values of the others. -/
def options (given : Given) : Options :=
  let usual : Options := {}
  { file := given.file?.getD usual.file
    output := given.output?.getD usual.output
    platform := given.platform?
    isVerbose := given.isVerbose }

end Given

/-- What some arguments tell the program to do. -/
def readArguments (arguments : List String) : Except Stop Options := do
  let given ← arguments.foldlM Given.take {}
  return (← given.settle).options

end BuildGraph.CommandLine
