import BuildGraph.Path

namespace BuildGraph

/-!
# What a build file is written for

A target is a platform together with the variables that stand for the symbolic roots
of paths.
-/

/-- The variables that stand for the roots of paths, where there are any. -/
structure PathVariables where
  sourceTree : Option Variable
  buildTree : Option Variable
  base : Option Variable
  executableBase : Option Variable
  executables : Option Variable
  libraries : Option Variable
  headers : Option Variable
  staging : Option Variable
  deriving Repr, DecidableEq

namespace PathVariables

/--
The conventional variables.

The source tree and every installation directory have variables of their own names.
The build tree has none, since the build runs there, and the staging directory has
one only on platforms that support staging.
-/
def forPlatform (platform : Platform) : PathVariables where
  sourceTree := some (.ofString "srcdir")
  buildTree := none
  base := some (.ofString "prefix")
  executableBase := some (.ofString "exec_prefix")
  executables := some (.ofString "bindir")
  libraries := some (.ofString "libdir")
  headers := some (.ofString "includedir")
  staging :=
    if platform.supportsStaging then some (.ofString "DESTDIR") else none

/-- The variable for a root, if it has one; an absolute path never has. -/
def get (pathVariables : PathVariables) : Root → Option Variable
  | .sourceTree => pathVariables.sourceTree
  | .buildTree => pathVariables.buildTree
  | .absolute => none
  | .install .base => pathVariables.base
  | .install .executableBase => pathVariables.executableBase
  | .install .executables => pathVariables.executables
  | .install .libraries => pathVariables.libraries
  | .install .headers => pathVariables.headers

/-- Use another variable, or none, for a root; an absolute path stays without. -/
def set
    (pathVariables : PathVariables)
    (root : Root)
    (var : Option Variable) :
    PathVariables :=
  match root with
  | .sourceTree => { pathVariables with sourceTree := var }
  | .buildTree => { pathVariables with buildTree := var }
  | .absolute => pathVariables
  | .install .base => { pathVariables with base := var }
  | .install .executableBase => { pathVariables with executableBase := var }
  | .install .executables => { pathVariables with executables := var }
  | .install .libraries => { pathVariables with libraries := var }
  | .install .headers => { pathVariables with headers := var }

/-- A root other than the absolute one has the variable last set for it. -/
theorem get_set_self
    (pathVariables : PathVariables)
    {root : Root}
    (var : Option Variable)
    (notAbsolute : root ≠ .absolute) :
    (pathVariables.set root var).get root = var := by
  rcases root with _ | _ | _ | (_ | _ | _ | _ | _)
  case absolute => exact absurd rfl notAbsolute
  all_goals rfl

/-- Setting the variable of one root leaves the others alone. -/
theorem get_set_of_ne
    (pathVariables : PathVariables)
    {root other : Root}
    (var : Option Variable)
    (different : other ≠ root) :
    (pathVariables.set root var).get other = pathVariables.get other := by
  rcases root with _ | _ | _ | (_ | _ | _ | _ | _) <;>
    rcases other with _ | _ | _ | (_ | _ | _ | _ | _) <;>
    first | rfl | exact absurd rfl different

end PathVariables

/-- What a build file is written for. -/
structure Target where
  platform : Platform
  pathVariables : PathVariables
  deriving Repr, DecidableEq

/-- A platform with its conventional variables. -/
def Target.forPlatform (platform : Platform) : Target where
  platform
  pathVariables := .forPlatform platform

end BuildGraph
