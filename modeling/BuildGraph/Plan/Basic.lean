import BuildGraph.File.Basic

namespace BuildGraph

/-!
# Build plans

A build plan is a document that lists the declarations of a build file.  Its types say
what such a document may hold, before tools are looked up and anything is declared.
-/

namespace Plan

/-- Text with its escaping. -/
inductive Piece where
  | text (text : String)
  | literal (text : String)
  | shell (text : String)
  | reference (name : String)
  | path (suffix : String) (root : Root) (isDirectory : Bool)
  | concat (parts : List Piece)

/-- One argument of a command line. -/
inductive Argument where
  /-- A tool, by its name in the plan. -/
  | tool (name : String)
  | piece (piece : Piece)

mutual

/-- One line of a command. -/
inductive Line where
  | arguments (arguments : List Argument)
  | shellList (arguments : List Argument)
  | nested (sequence : Sequence)
  | script (script : Piece)

/-- Command lines with environment bindings. -/
inductive Sequence where
  | mk (lines : List Line) (environment : Table String Piece)

end

/-- The command of a rule or an edge. -/
inductive Command where
  | sequence (sequence : Sequence)
  | line (line : Line)

/-- The right-hand side of an assignment. -/
inductive Value where
  | sequence (sequence : Sequence)
  | words (arguments : List Argument)
  | piece (piece : Piece)

/-- A list, or a single item in place of a list. -/
inductive OneOrMany (Item : Type) where
  | many (items : List Item)
  | one (item : Item)

/-- The items of a list or a single item. -/
def OneOrMany.toList : OneOrMany Item → List Item
  | .many items => items
  | .one item => [item]

/-- The declaration of a variable. -/
structure VariableEntry where
  name : String
  value : Value
  group : VariableGroup
  acceptExisting : Bool

/-- The declaration of a rule. -/
structure RuleEntry where
  name : String
  command : Command
  depfile : Option Piece
  deps : Option String
  generator : Bool
  pool : Option String
  restat : Bool

/-- The declaration of an edge. -/
structure EdgeEntry where
  outputs : OneOrMany Piece
  rule : String
  inputs : OneOrMany Piece
  implicit : OneOrMany Piece
  orderOnly : OneOrMany Piece
  overrides : Table String Value

/-- The declaration of an edge with a command of its own. -/
structure CommandEdgeEntry where
  outputs : OneOrMany Piece
  command : Command
  inputs : OneOrMany Piece
  implicit : OneOrMany Piece
  orderOnly : OneOrMany Piece
  console : Bool

end Plan

/-- Everything that a plan declares. -/
structure Plan where
  source : String
  platform : Option Platform
  minimumVersion : Option Version
  tools : Table String Plan.Value
  variableEntries : List Plan.VariableEntry
  rules : List Plan.RuleEntry
  edges : List Plan.EdgeEntry
  commandEdges : List Plan.CommandEdgeEntry
  defaults : List Plan.Piece

end BuildGraph
