import BuildGraph.Yaml.Tag

namespace BuildGraph.Yaml

/-!
# Nodes

A node is a part of a YAML text as it is written, before it is decided what its scalars
stand for.  References to other nodes have been replaced by these.
-/

/-- A node that is written as a single text. -/
structure Scalar where
  tag : Tag
  /-- Whether the text is written without quotes. -/
  isPlain : Bool
  text : String
  deriving Repr, DecidableEq

/-- A part of a YAML text. -/
inductive Node where
  | scalar (scalar : Scalar)
  | sequence (items : List Node)
  | mapping (entries : List (Scalar × Node))

/-- A scalar that has been left out. -/
def Scalar.absent : Scalar := { tag := .none, isPlain := true, text := "~" }

namespace Node

/-- A node that has been left out. -/
def absent : Node := .scalar .absent

/-- A node of which only properties have been written. -/
def bare (tag : Tag) : Node := .scalar { tag, isPlain := true, text := "" }

/-- The scalar that a node is, if it is one. -/
def scalar? : Node → Option Scalar
  | .scalar written => some written
  | _ => none

mutual

/-- The number of nodes that a node is made of. -/
def size : Node → Nat
  | .scalar _ => 1
  | .sequence items => 1 + sizeOfItems items
  | .mapping entries => 1 + sizeOfEntries entries

/-- The number of nodes in the items of a sequence. -/
def sizeOfItems : List Node → Nat
  | [] => 0
  | item :: rest => item.size + sizeOfItems rest

/-- The number of nodes in the entries of a mapping. -/
def sizeOfEntries : List (Scalar × Node) → Nat
  | [] => 0
  | (_, value) :: rest => 1 + value.size + sizeOfEntries rest

end

mutual

/-- The number of collections inside each other in a node. -/
def depth : Node → Nat
  | .scalar _ => 0
  | .sequence items => 1 + depthOfItems items
  | .mapping entries => 1 + depthOfEntries entries

/-- The number of collections inside each other in the items of a sequence. -/
def depthOfItems : List Node → Nat
  | [] => 0
  | item :: rest => max item.depth (depthOfItems rest)

/-- The number of collections inside each other in the entries of a mapping. -/
def depthOfEntries : List (Scalar × Node) → Nat
  | [] => 0
  | (_, value) :: rest => max value.depth (depthOfEntries rest)

end

end Node

end BuildGraph.Yaml
