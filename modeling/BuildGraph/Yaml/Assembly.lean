import BuildGraph.Yaml.Node
import BuildGraph.Yaml.Token

namespace BuildGraph.Yaml

/-!
# Nodes out of tokens

The tokens of a text make up nodes.  A reference stands for the latest node with its name
that has been given in front of it, and only for one that is complete there.  References
can make a small text stand for a large tree, so there are limits to what a text may
stand for.
-/

/-- How many nodes a text may stand for. -/
def nodeLimit : Nat := 250000

/-- How many collections may stand inside each other. -/
def depthLimit : Nat := 2000

/-- How many names, and how many references, there may be. -/
def nameLimit : Nat := 50000

/-- How many references there may be at any rate. -/
def freeReferences : Nat := 100

/-- How many references there may be for each name. -/
def referencesPerName : Nat := 10

/-- How far nodes have been made out of tokens. -/
structure Assembly where
  /-- The tokens that are left. -/
  tokens : List Token
  /-- What handles stand for. -/
  spaces : List (String × String) := []
  /-- The names that have been given, each with its number, the latest first. -/
  names : List (String × Nat) := []
  /-- The complete nodes that have been given names, by their numbers. -/
  named : List (Nat × Node) := []
  /-- The number of references. -/
  references : Nat := 0
  /-- The number of nodes. -/
  size : Nat := 0

/-- A way to make something out of tokens. -/
abbrev Assemble := StateT Assembly Option

/-- What stands in front of a node. -/
structure Properties where
  /-- The number of its name. -/
  name? : Option Nat := none
  tag? : Option Tag := none

namespace Properties

/-- Whether there are no properties. -/
def isEmpty (properties : Properties) : Bool :=
  properties.name?.isNone && properties.tag?.isNone

/-- What the tag says. -/
def tag (properties : Properties) : Tag := properties.tag?.getD .none

end Properties

namespace Assemble

/-- The next token, which has to be a proper one. -/
def next : Assemble Token := do
  match (← get).tokens with
  | [] | .fault :: _ => failure
  | token :: _ => return token

/-- Take a token. -/
def advance : Assemble Unit :=
  modify fun assembly => { assembly with tokens := assembly.tokens.tail }

/-- Take a token if it is next. -/
def skip? (token : Token) : Assemble Bool := do
  if (← next) = token then
    advance
    return true
  else
    return false

/-- Count nodes that are added at a depth. -/
def add (size depth : Nat) : Assemble Unit := do
  let assembly ← get
  let size := assembly.size + size
  if nodeLimit < size ∨ depthLimit < depth then
    failure
  else
    set { assembly with size }

/-- Give the next number to a name. -/
def give (name : String) : Assemble Nat := do
  let assembly ← get
  let number := assembly.names.length
  set { assembly with names := (name, number) :: assembly.names }
  return number

/-- What a written tag says. -/
def meaning (tag : WrittenTag) : Assemble Tag := do
  (tag.meaning? (← get).spaces : Option Tag)

/-- Take the properties of a node: a name and a tag at most, in any order. -/
def takeProperties : Assemble Properties := do
  match ← next with
  | .name name =>
      advance
      let number ← give name
      match ← next with
      | .tag tag =>
          advance
          return { name? := some number, tag? := some (← meaning tag) }
      | _ => return { name? := some number }
  | .tag tag =>
      advance
      let tag ← meaning tag
      match ← next with
      | .name name =>
          advance
          return { name? := some (← give name), tag? := some tag }
      | _ => return { tag? := some tag }
  | _ => return {}

/-- Remember a complete node by its name. -/
def remember (properties : Properties) (node : Node) : Assemble Node := do
  match properties.name? with
  | some number => modify fun assembly =>
      { assembly with named := (number, node) :: assembly.named }
  | none => pure ()
  return node

/-- The node that a reference stands for, at a depth. -/
def refer (depth : Nat) (name : String) : Assemble Node := do
  let assembly ← get
  let number ← (assembly.names.lookup name : Option Nat)
  let node ← (assembly.named.lookup number : Option Node)
  set { assembly with references := assembly.references + 1 }
  add node.size (depth + node.depth)
  return node

/-- A node that has been left out. -/
def leaveOut : Assemble Node := do
  add 1 0
  return .absent

/-- A node as a key. -/
def asKey (node : Node) : Assemble Scalar :=
  (node.scalar? : Option Scalar)

end Assemble

/-- Where a node stands. -/
inductive Position where
  /-- In brackets. -/
  | inBrackets
  /-- In a collection by indentation, or on its own. -/
  | byIndentation
  /-- Behind a key, where a sequence may stand in the column of the key. -/
  | behindKey
  deriving Repr, DecidableEq

open Assemble

mutual

/-- Make a node, inside the given number of collections. -/
def assembleNode : (fuel : Nat) → Position → (depth : Nat) → Assemble Node
  | 0, _, _ => failure
  | fuel + 1, position, depth => do
      if let .reference name := ← next then
        advance
        return ← refer depth name
      let properties ← takeProperties
      match ← next, position with
      | .text .unindented _, _ => failure
      | .text style text, _ =>
          advance
          add 1 depth
          remember properties
            (.scalar { tag := properties.tag, isPlain := style = .plain, text })
      | .openSequence, _ =>
          advance
          add 1 (depth + 1)
          remember properties (.sequence (← assembleBracketItems fuel true (depth + 1)))
      | .openMapping, _ =>
          advance
          add 1 (depth + 1)
          remember properties (.mapping (← assembleBracketEntries fuel true (depth + 1)))
      | .item, .behindKey =>
          add 1 (depth + 1)
          remember properties (.sequence (← assembleItems fuel false (depth + 1)))
      | .sequenceStart, .behindKey | .sequenceStart, .byIndentation =>
          advance
          add 1 (depth + 1)
          remember properties (.sequence (← assembleItems fuel true (depth + 1)))
      | .mappingStart, .behindKey | .mappingStart, .byIndentation =>
          advance
          add 1 (depth + 1)
          remember properties (.mapping (← assembleEntries fuel (depth + 1)))
      | _, _ =>
          if properties.isEmpty then
            failure
          else
            add 1 depth
            remember properties (.bare properties.tag)

/--
Make the items of a sequence by indentation.

One that stands in the column of a key ends with whatever is not an item.
-/
def assembleItems : (fuel : Nat) → (isIndented : Bool) → (depth : Nat) →
    Assemble (List Node)
  | 0, _, _ => failure
  | fuel + 1, isIndented, depth => do
      if ← skip? .item then
        let token ← next
        let item ←
          if token = .item ∨ token = .collectionEnd ∨
              ¬ isIndented ∧ (token = .key ∨ token = .value) then
            leaveOut
          else
            assembleNode fuel .byIndentation depth
        return item :: (← assembleItems fuel isIndented depth)
      else if isIndented then
        if ← skip? .collectionEnd then
          return []
        else
          failure
      else
        return []

/-- Make a key or a value of a mapping by indentation, which may be left out. -/
def assemblePart : (fuel : Nat) → (depth : Nat) → Assemble Node
  | 0, _ => failure
  | fuel + 1, depth => do
      let token ← next
      if token = .key ∨ token = .value ∨ token = .collectionEnd then
        leaveOut
      else
        assembleNode fuel .behindKey depth

/-- Make the entries of a mapping by indentation. -/
def assembleEntries : (fuel : Nat) → (depth : Nat) → Assemble (List (Scalar × Node))
  | 0, _ => failure
  | fuel + 1, depth => do
      if ← skip? .collectionEnd then
        return []
      let token ← next
      let keyNode ←
        if token = .key then
          advance
          assemblePart fuel depth
        else if token = .value then
          leaveOut
        else
          failure
      let value ← if ← skip? .value then assemblePart fuel depth else leaveOut
      let key ← asKey keyNode
      return (key, value) :: (← assembleEntries fuel depth)

/-- Make the items of a sequence in brackets. -/
def assembleBracketItems : (fuel : Nat) → (isFirst : Bool) → (depth : Nat) →
    Assemble (List Node)
  | 0, _, _ => failure
  | fuel + 1, isFirst, depth => do
      if ← skip? .closeSequence then
        return []
      if ¬ isFirst then
        if ¬ (← skip? .comma) then
          failure
        if ← skip? .closeSequence then
          return []
      let item ←
        if ← skip? .key then
          assembleBareEntry fuel (depth + 1)
        else
          assembleNode fuel .inBrackets depth
      return item :: (← assembleBracketItems fuel false depth)

/--
Make an entry of a mapping that stands without braces in a sequence.

Where the key has been left out, whatever stands in its place is passed over.
-/
def assembleBareEntry : (fuel : Nat) → (depth : Nat) → Assemble Node
  | 0, _ => failure
  | fuel + 1, depth => do
      add 1 depth
      let token ← next
      let keyNode ←
        if token = .value ∨ token = .comma ∨ token = .closeSequence then
          advance
          leaveOut
        else
          assembleNode fuel .inBrackets depth
      let value ←
        if ← skip? .value then
          let token ← next
          if token = .comma ∨ token = .closeSequence then
            leaveOut
          else
            assembleNode fuel .inBrackets depth
        else
          leaveOut
      let key ← asKey keyNode
      return .mapping [(key, value)]

/-- Make the entries of a mapping in brackets. -/
def assembleBracketEntries : (fuel : Nat) → (isFirst : Bool) → (depth : Nat) →
    Assemble (List (Scalar × Node))
  | 0, _, _ => failure
  | fuel + 1, isFirst, depth => do
      if ← skip? .closeMapping then
        return []
      if ¬ isFirst then
        if ¬ (← skip? .comma) then
          failure
        if ← skip? .closeMapping then
          return []
      let token ← next
      let mayHaveValue := token = .key || token = .value
      let keyNode ←
        if token = .key then
          advance
          let token ← next
          if token = .value ∨ token = .comma ∨ token = .closeMapping then
            leaveOut
          else
            assembleNode fuel .inBrackets depth
        else if token = .value then
          leaveOut
        else
          assembleNode fuel .inBrackets depth
      let value ←
        if mayHaveValue then
          if ← skip? .value then
            let token ← next
            if token = .comma ∨ token = .closeMapping then
              leaveOut
            else
              assembleNode fuel .inBrackets depth
          else
            leaveOut
        else
          leaveOut
      let key ← asKey keyNode
      return (key, value) :: (← assembleBracketEntries fuel false depth)

end

end BuildGraph.Yaml
