import BuildGraph.Platform
import BuildGraph.Text.SingleLine
import BuildGraph.Variable

namespace BuildGraph

/-!
# Paths

A path names a place below a symbolic root, such as the source tree or an
installation directory.  Which variable stands for the root is decided only when the
path is written, so one path serves every position of a build file.
-/

/-- Directories that files are installed to. -/
inductive InstallRoot where
  | base
  | executableBase
  | executables
  | libraries
  | headers
  deriving Repr, DecidableEq

namespace InstallRoot

/-- Every installation directory. -/
def all : List InstallRoot :=
  [.base, .executableBase, .executables, .libraries, .headers]

/-- The conventional variable name for an installation directory. -/
def name : InstallRoot → String
  | .base => "prefix"
  | .executableBase => "exec_prefix"
  | .executables => "bindir"
  | .libraries => "libdir"
  | .headers => "includedir"

end InstallRoot

/-- The place that a path starts from. -/
inductive Root where
  | sourceTree
  | buildTree
  | absolute
  | install (root : InstallRoot)
  deriving Repr, DecidableEq

/-- The name that a root is shown by; an absolute path has none. -/
def Root.name : Root → String
  | .sourceTree => "srcdir"
  | .buildTree => "builddir"
  | .absolute => ""
  | .install root => root.name

/-- A path below a symbolic root, with `/` between its components. -/
structure Path where
  root : Root
  suffix : String
  isDirectory : Bool
  isStaged : Bool
  deriving Repr, DecidableEq

namespace Path

/-- A file below a root. -/
def below (root : Root) (suffix : String) : Path :=
  { root, suffix, isDirectory := false, isStaged := false }

/-- An installed file, staged where the platform supports it. -/
def installed (root : InstallRoot) (suffix : String) : Path :=
  { below (.install root) suffix with isStaged := true }

/-- A path below a root from its components; empty components are left out. -/
def ofComponents (root : Root) (components : List String) : Path :=
  below root ("/".intercalate (components.filter (· ≠ "")))

/-- The same path, naming a directory. -/
def asDirectory (path : Path) : Path :=
  { path with isDirectory := true }

/-- The same path, staged where the platform supports it. -/
def staged (path : Path) : Path :=
  { path with isStaged := true }

/-- The same path without staging. -/
def unstaged (path : Path) : Path :=
  { path with isStaged := false }

/-- Text without the slashes at its end. -/
def dropTrailingSlashes (text : String) : String :=
  String.ofList (text.toList.reverse.dropWhile (· = '/')).reverse

/-- The suffix one component further down. -/
def joinSuffix (suffix component : String) : String :=
  if component = "" then suffix
  else if suffix = "" then component
  else dropTrailingSlashes suffix ++ "/" ++ component

/-- The file one component further down; it is staged as the path is. -/
def child (path : Path) (component : String) : Path :=
  { path with
    suffix := joinSuffix path.suffix component
    isDirectory := false }

/-- Reject a suffix with a line break. -/
def check (path : Path) : Except Text.IllegalNewline Unit :=
  Text.checkSingleLine path.suffix.toList

/-- The name that a display gives to a root; the build tree and an absolute path have none. -/
def displayedRoot? (path : Path) : Option String :=
  match path.root with
  | .absolute | .buildTree => none
  | root => some root.name

/-- The path for a reader, with the names of its roots in `$(…)`. -/
def display (path : Path) : String :=
  let staging := if path.isStaged then "$(DESTDIR)" else ""
  let root :=
    match path.displayedRoot? with
    | some name => "$(" ++ name ++ ")"
    | none => ""
  let hasHead := path.isStaged || path.displayedRoot?.isSome
  let rest :=
    if path.suffix = "" then
      if hasHead then "" else "."
    else if hasHead ∧ path.suffix.toList.head? ≠ some '/' then
      "/" ++ path.suffix
    else
      path.suffix
  staging ++ root ++ rest

end Path

end BuildGraph
