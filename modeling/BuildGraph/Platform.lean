namespace BuildGraph

/-!
# Platforms

A build file is written for one platform.  The platform decides which shell runs the
commands and whether installed files can be staged below a separate directory.
-/

/-- A platform that a build file can be written for. -/
inductive Platform where
  | linux
  | darwin
  | cygwin
  | windows
  deriving Repr, DecidableEq

/-- The kind of shell that runs the commands of a build file. -/
inductive ShellFamily where
  | posix
  | windows
  deriving Repr, DecidableEq

namespace Platform

/-- Every platform, in the order in which choices are listed. -/
def all : List Platform :=
  [.linux, .darwin, .cygwin, .windows]

/-- The name a user writes for a platform. -/
def name : Platform → String
  | .linux => "linux"
  | .darwin => "darwin"
  | .cygwin => "cygwin"
  | .windows => "windows"

/-- The platform with exactly this name. -/
def ofName? (name : String) : Option Platform :=
  all.find? fun platform => platform.name = name

/-- The shell that runs commands on a platform. -/
def family : Platform → ShellFamily
  | .windows => .windows
  | .linux | .darwin | .cygwin => .posix

/-- Whether installed files can be staged below a separate directory. -/
def supportsStaging : Platform → Bool
  | .windows => false
  | .linux | .darwin | .cygwin => true

/-- The platform assumed when nothing names one. -/
def host : Platform := .linux

/-- A platform is found by its own name. -/
@[simp] theorem ofName?_name
    (platform : Platform) :
    ofName? platform.name = some platform := by
  cases platform <;> decide

end Platform

end BuildGraph
