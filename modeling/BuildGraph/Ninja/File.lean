import BuildGraph.File.Basic
import BuildGraph.Ninja.Command

namespace BuildGraph.Ninja

/-!
# Writing build files

A build file is written in one pass: a header of comments, the required version, the
assignments group by group, the rules, the edges, and the default targets.  Blocks are
separated by empty lines.
-/

/-- The comment at the top of a build file, naming what it was made from. -/
def header (source : String) : String :=
  "# Do not edit this file! It was automatically generated by ninja-synth.\n" ++
    "# Instead, you should edit the source file that created this:\n" ++
    "# " ++ source ++ "\n\n"

/-- What stands in front of the bindings of a rule or an edge. -/
def indentation : String := "  "

/-- Write text that is part of the form of a build file. -/
def writeString (text : String) : Output Unit :=
  Output.write text.toList

/-- Write an assignment on a line of its own. -/
def writeAssignment
    (target : Target)
    (position : Position)
    (indent name : String)
    (value : Value) :
    Output Unit := do
  writeString indent
  writeString name
  writeString " = "
  writeValue target position value
  writeString "\n"

/-- Write the lowest version that can read the file, if there is one. -/
def writeRequiredVersion
    (target : Target) :
    Option Version →
    Output Unit
  | none => return ()
  | some version => do
      writeAssignment target .shell "" "ninja_required_version"
        (.text (.plain version.requirement))
      writeString "\n"

/-- The position of values in a group; roots of paths are quoted by the paths they are in. -/
def groupPosition : VariableGroup → Position
  | .path => .clean
  | .command | .flags | .other => .shell

/-- Write the assignments of one group, if it has any. -/
def writeGroup (file : BuildFile) (group : VariableGroup) : Output Unit :=
  match file.assignmentsOf group with
  | [] => return ()
  | assignments => do
      Output.forEach
        (fun assignment =>
          writeAssignment file.target (groupPosition group) ""
            assignment.target.name assignment.value)
        assignments
      writeString "\n"

/-- The bindings of a rule, in order. -/
def ruleBindings (rule : Rule) : List (String × Value) :=
  [("command", rule.command)] ++
    (rule.depfile.map fun depfile => ("depfile", .text depfile)).toList ++
    (rule.deps.map fun deps => ("deps", .text (.plain deps))).toList ++
    (if rule.generator then [("generator", .text (.plain "1"))] else []) ++
    (rule.pool.map fun pool => ("pool", .text (.plain pool.name))).toList ++
    (if rule.restat then [("restat", .text (.plain "1"))] else [])

/-- Write bindings, each on an indented line of its own. -/
def writeBindingLines
    (target : Target)
    (bindings : List (String × Value)) :
    Output Unit :=
  Output.forEach
    (fun binding =>
      writeAssignment target .shell indentation binding.1 binding.2)
    bindings

/-- Write a rule. -/
def writeRule (target : Target) (rule : Rule) : Output Unit := do
  writeString "rule "
  writeString rule.name
  writeString "\n"
  writeBindingLines target (ruleBindings rule)

/-- Write the first line of an edge. -/
def writeEdgeLine (target : Target) (edge : Edge) : Output Unit := do
  writeString "build "
  writeEach target .output [] edge.outputs
  writeString ": "
  writeString edge.rule
  writeEach target .input " ".toList edge.inputs
  writeEach target .input " | ".toList edge.implicit
  writeEach target .input " || ".toList edge.orderOnly
  writeString "\n"

/-- Write an edge with its overrides. -/
def writeEdge (target : Target) (edge : Edge) : Output Unit := do
  writeEdgeLine target edge
  writeBindingLines target
    (edge.overrides.entries.map fun entry => (entry.1.name, entry.2))

/-- Write the default targets, if there are any. -/
def writeDefaults (target : Target) : List Fragment → Output Unit
  | [] => return ()
  | defaults => do
      writeString "default "
      writeEach target .input [] defaults
      writeString "\n"

/-- Write everything behind the header. -/
def writeBody (file : BuildFile) : Output Unit := do
  writeRequiredVersion file.target file.requiredVersion
  Output.forEach (writeGroup file) VariableGroup.all
  Output.forEach
    (fun rule => do
      writeRule file.target rule
      writeString "\n")
    file.rules
  Output.forEach
    (fun edge => do
      writeEdge file.target edge
      writeString "\n")
    file.edges
  writeDefaults file.target file.defaults

/-- Write a build file. -/
def writeFile (file : BuildFile) : Output Unit := do
  writeString (header file.source)
  writeBody file

/-- The text of a build file. -/
def generate (file : BuildFile) : Except RenderError String :=
  (writeFile file).toText

end BuildGraph.Ninja
