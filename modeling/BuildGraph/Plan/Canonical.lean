import BuildGraph.Document
import BuildGraph.Plan.Basic

namespace BuildGraph

/-!
# Canonical documents

A plan can be written in many ways.  The canonical one writes every node as the mapping or
the list of its form, a bare text only where there is neither, and every field of an entry
under its name.  What is left open is left out.
-/

/-- The entries of a mapping for the fields that have a value, in order. -/
def Document.recordEntries (fields : List (String × Option Document)) : List (Key × Document) :=
  fields.filterMap fun field => field.2.map (Key.name field.1, ·)

/-- A mapping of the fields that have a value, in order. -/
def Document.record (fields : List (String × Option Document)) : Document :=
  .mapping (recordEntries fields)

/-- A mapping of a single field. -/
def Document.tagged (name : String) (value : Document) : Document :=
  .mapping [(.name name, value)]

/-- A mapping from names of any kind. -/
def Document.ofTable (write : Item → Document) (table : Table String Item) : Document :=
  .mapping (table.entries.map fun entry => (.name entry.1, write entry.2))

namespace Plan

/-- The name that a plan has for a root. -/
def rootName : Root → String
  | .absolute => "absolute"
  | root => root.name

mutual

/-- The document of a piece. -/
def Piece.document : Piece → Document
  | .text content => .text content
  | .literal content => .tagged "literal" (.text content)
  | .shell content => .tagged "shell" (.text content)
  | .reference name => .tagged "var" (.text name)
  | .path suffix root isDirectory =>
      .record
        [("path", some (.text suffix)), ("root", some (.text (rootName root))),
          ("directory", some (.boolean isDirectory))]
  | .concat parts => .tagged "concat" (.sequence (Piece.documents parts))

/-- The documents of pieces. -/
def Piece.documents : List Piece → List Document
  | [] => []
  | piece :: rest => piece.document :: Piece.documents rest

end

/-- The document of an argument. -/
def Argument.document : Argument → Document
  | .tool name => .tagged "tool" (.text name)
  | .piece content => content.document

mutual

/-- The document of a line. -/
def Line.document : Line → Document
  | .arguments arguments => .sequence (arguments.map Argument.document)
  | .shellList arguments =>
      .tagged "shell_list" (.sequence (arguments.map Argument.document))
  | .nested lines => lines.document
  | .script script => script.document

/-- The documents of lines. -/
def Line.documents : List Line → List Document
  | [] => []
  | line :: rest => line.document :: Line.documents rest

/-- The document of a command sequence. -/
def Sequence.document : Sequence → Document
  | .mk lines environment =>
      .record
        [("commands", some (.sequence (Line.documents lines))),
          ("env", some (.ofTable Piece.document environment))]

end

/-- The document of a command. -/
def Command.document : Command → Document
  | .sequence lines => lines.document
  | .line single => single.document

/-- The document of a value. -/
def Value.document : Value → Document
  | .sequence lines => lines.document
  | .words arguments => .sequence (arguments.map Argument.document)
  | .piece content => content.document

/-- The document of a list of pieces, or of a single piece. -/
def OneOrMany.document : OneOrMany Piece → Document
  | .many pieces => .sequence (Piece.documents pieces)
  | .one piece => piece.document

/-- The fields of a variable, and what they hold. -/
def VariableEntry.fields (entry : VariableEntry) : List (String × Option Document) :=
  [("name", some (.text entry.name)),
    ("value", some entry.value.document),
    ("section", some (.text entry.group.name)),
    ("exist_ok", some (.boolean entry.acceptExisting))]

/-- The fields of a rule, and what they hold. -/
def RuleEntry.fields (entry : RuleEntry) : List (String × Option Document) :=
  [("name", some (.text entry.name)),
    ("command", some entry.command.document),
    ("depfile", entry.depfile.map Piece.document),
    ("deps", entry.deps.map .text),
    ("generator", some (.boolean entry.generator)),
    ("pool", entry.pool.map .text),
    ("restat", some (.boolean entry.restat))]

/-- The fields of an edge, and what they hold. -/
def EdgeEntry.fields (entry : EdgeEntry) : List (String × Option Document) :=
  [("outputs", some entry.outputs.document),
    ("rule", some (.text entry.rule)),
    ("inputs", some entry.inputs.document),
    ("implicit", some entry.implicit.document),
    ("order_only", some entry.orderOnly.document),
    ("variables", some (.ofTable Value.document entry.overrides))]

/-- The fields of an edge with a command of its own, and what they hold. -/
def CommandEdgeEntry.fields (entry : CommandEdgeEntry) : List (String × Option Document) :=
  [("outputs", some entry.outputs.document),
    ("commands", some entry.command.document),
    ("inputs", some entry.inputs.document),
    ("implicit", some entry.implicit.document),
    ("order_only", some entry.orderOnly.document),
    ("console", some (.boolean entry.console))]

/-- The document of a list of entries, each of them a record of its fields. -/
def entriesDocument
    (fields : Entry → List (String × Option Document))
    (entries : List Entry) :
    Document :=
  .sequence (entries.map fun entry => .record (fields entry))

/-- The fields of a plan, and what they hold. -/
def fields (plan : Plan) : List (String × Option Document) :=
  [("source", some (.text plan.source)),
    ("platform", plan.platform.map fun platform => .text platform.name),
    ("min_version", plan.minimumVersion.map fun version => .text version.text),
    ("tools", some (.ofTable Value.document plan.tools)),
    ("variables", some (entriesDocument VariableEntry.fields plan.variableEntries)),
    ("rules", some (entriesDocument RuleEntry.fields plan.rules)),
    ("builds", some (entriesDocument EdgeEntry.fields plan.edges)),
    ("command_builds", some (entriesDocument CommandEdgeEntry.fields plan.commandEdges)),
    ("defaults", some (.sequence (Piece.documents plan.defaults)))]

/-- The canonical document of a plan. -/
def document (plan : Plan) : Document :=
  .record plan.fields

end Plan

end BuildGraph
