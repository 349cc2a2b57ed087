import BuildGraph.Plan.Reader
import Mathlib.Data.List.Basic

namespace BuildGraph

/-!
# The mappings of a plan and their forms

A plan is read from a document by trying forms on its nodes.  Here every mapping of the
document is listed together with the form that it is read as, in the order of the text.  The
forms are found by the forms themselves, so the list follows whatever they accept.
-/

mutual

/-- The entries of every mapping in a document, in the order of the text. -/
def Document.mappings : Document → List (List (Key × Document))
  | .sequence items => mappingsOfItems items
  | .mapping entries => entries :: mappingsOfEntries entries
  | .null | .boolean _ | .integer _ | .decimal _ | .text _ | .broken _ _ | .fault _ => []

def Document.mappingsOfItems : List Document → List (List (Key × Document))
  | [] => []
  | item :: rest => item.mappings ++ mappingsOfItems rest

def Document.mappingsOfEntries : List (Key × Document) → List (List (Key × Document))
  | [] => []
  | (_, value) :: rest => value.mappings ++ mappingsOfEntries rest

end

theorem Document.mappingsOfItems_eq_flatMap
    (items : List Document) :
    mappingsOfItems items = items.flatMap mappings := by
  induction items with
  | nil =>
      rfl
  | cons item rest inductionHypothesis =>
      rw [mappingsOfItems, inductionHypothesis, List.flatMap_cons]

theorem Document.mappingsOfEntries_eq_flatMap
    (entries : List (Key × Document)) :
    mappingsOfEntries entries = entries.flatMap fun entry => entry.2.mappings := by
  induction entries with
  | nil =>
      rfl
  | cons entry rest inductionHypothesis =>
      rw [mappingsOfEntries, inductionHypothesis, List.flatMap_cons]

namespace Plan

/-- The forms that the mappings of a plan are read as. -/
inductive NodeForm where
  | plan
  | variableEntry
  | rule
  | edge
  | commandEdge
  | tool
  | shellList
  | sequence
  /-- A choice among names. -/
  | choice (names : List String)
  | literal
  | shell
  | reference
  | path
  | concat
  /-- A mapping with names of any kind. -/
  | table
  /-- A mapping below a key that no form looks at. -/
  | unread
  deriving Repr, DecidableEq

namespace NodeForm

/-- The keys that a form defines; a piece of text has the telling one in front. -/
def keys : NodeForm → List String
  | .plan => (planFields .json).names
  | .variableEntry => (variableFields .json).names
  | .rule => ruleFields.names
  | .edge => edgeFields.names
  | .commandEdge => commandEdgeFields.names
  | .tool => ["tool"]
  | .shellList => ["shell_list"]
  | .sequence => ["commands", "env"]
  | .choice names => names
  | .literal => ["literal"]
  | .shell => ["shell"]
  | .reference => ["var"]
  | .path => ["path", "root", "directory"]
  | .concat => ["concat"]
  | .table | .unread => []

/-- Whether a form is one of a piece of text. -/
def isPiece : NodeForm → Bool
  | .literal | .shell | .reference | .path | .concat => true
  | _ => false

/-- Whether a form is one with fixed keys and no piece of text. -/
def isStrict : NodeForm → Bool
  | .table | .unread => false
  | form => !form.isPiece

/-- What a mapping is read as when it has a form. -/
def Reads : NodeForm → List (Key × Document) → Prop
  | .plan, entries => ∃ plan, (planFields .json).read (.mapping entries) = .ok plan
  | .variableEntry, entries =>
      ∃ entry, (variableFields .json).read (.mapping entries) = .ok entry
  | .rule, entries => ∃ rule, ruleFields.read (.mapping entries) = .ok rule
  | .edge, entries => ∃ edge, edgeFields.read (.mapping entries) = .ok edge
  | .commandEdge, entries => ∃ edge, commandEdgeFields.read (.mapping entries) = .ok edge
  | .tool, entries => ∃ name, toolForm (.mapping entries) = some name
  | .shellList, entries => ∃ arguments, shellListForm (.mapping entries) = some arguments
  | .sequence, entries => ∃ sequence, sequenceForm (.mapping entries) = some sequence
  | .choice names, entries => ∃ name ∈ names, entries = [(.name name, .null)]
  | .literal, entries => ∃ text, pieceForm (.mapping entries) = some (.literal text)
  | .shell, entries => ∃ text, pieceForm (.mapping entries) = some (.shell text)
  | .reference, entries => ∃ name, pieceForm (.mapping entries) = some (.reference name)
  | .path, entries =>
      ∃ suffix root isDirectory,
        pieceForm (.mapping entries) = some (.path suffix root isDirectory)
  | .concat, entries => ∃ parts, pieceForm (.mapping entries) = some (.concat parts)
  | .table, entries => ∀ entry ∈ entries, ∃ name, entry.1 = .name name
  | .unread, _ => True

end NodeForm

/-- A mapping of a plan with its form. -/
structure Node where
  form : NodeForm
  entries : List (Key × Document)

/-- Every key of a node is one that its form defines. -/
def Node.HasOwnKeys (node : Node) : Prop :=
  ∀ entry ∈ node.entries, ∃ name ∈ node.form.keys, keyName? entry.1 = some name

instance (node : Node) : Decidable node.HasOwnKeys :=
  inferInstanceAs (Decidable (∀ entry ∈ node.entries,
    ∃ name ∈ node.form.keys, keyName? entry.1 = some name))

/-! ## Nodes of documents -/

/-- The mappings of a document that no form looks at. -/
def unreadNodes (document : Document) : List Node :=
  document.mappings.map (Node.mk .unread)

/-- A mapping of the given form, with the nodes of its values. -/
def mappingNodes
    (form : NodeForm)
    (parts : Key → Document → List Node) :
    Document →
    List Node
  | .mapping entries =>
      ⟨form, entries⟩ :: entries.flatMap fun entry => parts entry.1 entry.2
  | document => unreadNodes document

/-- The nodes of the items of a sequence. -/
def itemNodes (nodes : Document → List Node) : Document → List Node
  | .sequence items => items.flatMap nodes
  | document => unreadNodes document

/-- The nodes of a mapping with names of any kind. -/
def tableNodes (nodes : Document → List Node) : Document → List Node :=
  mappingNodes .table fun _ => nodes

/-- The nodes of a choice. -/
def choiceNodes (choices : List (String × Choice)) : Document → List Node :=
  mappingNodes (.choice (choices.map Prod.fst)) fun _ => unreadNodes

/-- The form of a piece of text that is written as a mapping. -/
def pieceNodeForm (entries : List (Key × Document)) : NodeForm :=
  match pieceForm (.mapping entries) with
  | some (.literal _) => .literal
  | some (.shell _) => .shell
  | some (.reference _) => .reference
  | some (.path _ _ _) => .path
  | some (.concat _) => .concat
  | some (.text _) | none => .unread

mutual

/-- The nodes of a piece of text. -/
def pieceNodes : Document → List Node
  | .mapping entries =>
      ⟨pieceNodeForm entries, entries⟩ :: pieceEntryNodes (pieceNodeForm entries) entries
  | document => unreadNodes document

/-- The nodes of pieces in a sequence. -/
def pieceListNodes : Document → List Node
  | .sequence items => pieceItemNodes items
  | document => unreadNodes document

def pieceItemNodes : List Document → List Node
  | [] => []
  | item :: rest => pieceNodes item ++ pieceItemNodes rest

/-- The nodes of the values of a piece: parts and a root are read, other mappings are not. -/
def pieceEntryNodes (form : NodeForm) : List (Key × Document) → List Node
  | [] => []
  | (key, value) :: rest =>
      (if form = .concat ∧ keyName? key = some "concat" then
        pieceListNodes value
      else if form = .path ∧ keyName? key = some "root" then
        choiceNodes rootNames value
      else
        unreadNodes value) ++
        pieceEntryNodes form rest

end

/-- The nodes of an argument. -/
def argumentNodes (document : Document) : List Node :=
  if (toolForm document).isSome then
    mappingNodes .tool (fun _ => unreadNodes) document
  else
    pieceNodes document

/-- The nodes of arguments with shell operators among them. -/
def shellListNodes : Document → List Node :=
  mappingNodes .shellList fun _ => itemNodes argumentNodes

mutual

/-- The nodes of a line. -/
def lineNodes : Document → List Node
  | .sequence items => items.flatMap argumentNodes
  | .mapping entries =>
      if (shellListForm (.mapping entries)).isSome then
        shellListNodes (.mapping entries)
      else if (sequenceForm (.mapping entries)).isSome then
        ⟨.sequence, entries⟩ :: sequenceEntryNodes entries
      else
        pieceNodes (.mapping entries)
  | document => unreadNodes document

/-- The nodes of lines in a sequence. -/
def lineListNodes : Document → List Node
  | .sequence items => lineItemNodes items
  | document => unreadNodes document

def lineItemNodes : List Document → List Node
  | [] => []
  | item :: rest => lineNodes item ++ lineItemNodes rest

/-- The nodes of the values of a command sequence. -/
def sequenceEntryNodes : List (Key × Document) → List Node
  | [] => []
  | (key, value) :: rest =>
      (if keyName? key = some "commands" then
        lineListNodes value
      else if keyName? key = some "env" then
        tableNodes pieceNodes value
      else
        unreadNodes value) ++
        sequenceEntryNodes rest

end

/-- The nodes of a command sequence. -/
def sequenceNodes : Document → List Node
  | .mapping entries => ⟨.sequence, entries⟩ :: sequenceEntryNodes entries
  | document => unreadNodes document

/-- The nodes of a command. -/
def commandNodes (document : Document) : List Node :=
  if (sequenceForm document).isSome then sequenceNodes document else lineNodes document

/-- The nodes of the right-hand side of an assignment. -/
def valueNodes (document : Document) : List Node :=
  if (sequenceForm document).isSome then sequenceNodes document
  else if (argumentListForm document).isSome then itemNodes argumentNodes document
  else pieceNodes document

/-- The nodes of pieces in a sequence, or of a single piece. -/
def piecesNodes (document : Document) : List Node :=
  if (pieceListForm document).isSome then pieceListNodes document else pieceNodes document

/-- The nodes of a mapping with fixed fields, by the names of the fields. -/
def recordNodes
    (form : NodeForm)
    (parts : List (String × (Document → List Node))) :
    Document →
    List Node :=
  mappingNodes form fun key =>
    ((keyName? key).bind fun name => parts.lookup name).getD unreadNodes

/-! The fields stand here from the last one to the first. -/

/-- The nodes of the declaration of a variable. -/
def variableNodes : Document → List Node :=
  recordNodes .variableEntry
    [("exist_ok", unreadNodes), ("section", choiceNodes groupNames), ("value", valueNodes),
      ("name", unreadNodes)]

/-- The nodes of the declaration of a rule. -/
def ruleNodes : Document → List Node :=
  recordNodes .rule
    [("restat", unreadNodes), ("pool", unreadNodes), ("generator", unreadNodes),
      ("deps", unreadNodes), ("depfile", pieceNodes), ("command", commandNodes),
      ("name", unreadNodes)]

/-- The nodes of the declaration of an edge. -/
def edgeNodes : Document → List Node :=
  recordNodes .edge
    [("variables", tableNodes valueNodes), ("order_only", piecesNodes),
      ("implicit", piecesNodes), ("inputs", piecesNodes), ("rule", unreadNodes),
      ("outputs", piecesNodes)]

/-- The nodes of the declaration of an edge with a command of its own. -/
def commandEdgeNodes : Document → List Node :=
  recordNodes .commandEdge
    [("console", unreadNodes), ("order_only", piecesNodes), ("implicit", piecesNodes),
      ("inputs", piecesNodes), ("commands", commandNodes), ("outputs", piecesNodes)]

/-- The nodes of a plan. -/
def planNodes : Document → List Node :=
  recordNodes .plan
    [("defaults", itemNodes pieceNodes), ("command_builds", itemNodes commandEdgeNodes),
      ("builds", itemNodes edgeNodes), ("rules", itemNodes ruleNodes),
      ("variables", itemNodes variableNodes), ("tools", tableNodes valueNodes),
      ("min_version", unreadNodes), ("platform", choiceNodes platformNames),
      ("source", unreadNodes)]

/-! ## Every mapping is listed -/

/-- The nodes of any document are its mappings, in the order of the text. -/
def Covers (nodes : Document → List Node) : Prop :=
  ∀ document, (nodes document).map Node.entries = document.mappings

theorem unreadNodes_covers :
    Covers unreadNodes := by
  intro document
  rw [unreadNodes, List.map_map]
  exact List.map_id _

theorem mappingNodes_covers
    {form : NodeForm}
    {parts : Key → Document → List Node}
    (covers : ∀ key, Covers (parts key)) :
    Covers (mappingNodes form parts) := by
  intro document
  cases document with
  | mapping entries =>
      have values :
          (entries.flatMap fun entry => parts entry.1 entry.2).map Node.entries =
            entries.flatMap fun entry => entry.2.mappings := by
        rw [List.map_flatMap]
        exact List.flatMap_congr fun entry _ => covers entry.1 entry.2
      rw [mappingNodes, List.map_cons, values, Document.mappings,
        Document.mappingsOfEntries_eq_flatMap]
  | _ =>
      exact unreadNodes_covers _

theorem itemNodes_covers
    {nodes : Document → List Node}
    (covers : Covers nodes) :
    Covers (itemNodes nodes) := by
  intro document
  cases document with
  | sequence items =>
      rw [itemNodes, List.map_flatMap, Document.mappings,
        Document.mappingsOfItems_eq_flatMap]
      exact List.flatMap_congr fun item _ => covers item
  | _ =>
      exact unreadNodes_covers _

theorem map_entries_append
    {first second : List Node}
    {ofFirst ofSecond : List (List (Key × Document))}
    (firstIs : first.map Node.entries = ofFirst)
    (secondIs : second.map Node.entries = ofSecond) :
    (first ++ second).map Node.entries = ofFirst ++ ofSecond := by
  rw [List.map_append, firstIs, secondIs]

theorem choiceNodes_covers
    (choices : List (String × Choice)) :
    Covers (choiceNodes choices) :=
  mappingNodes_covers fun _ => unreadNodes_covers

theorem tableNodes_covers
    {nodes : Document → List Node}
    (covers : Covers nodes) :
    Covers (tableNodes nodes) :=
  mappingNodes_covers fun _ => covers

mutual

theorem pieceNodes_covers :
    ∀ document, (pieceNodes document).map Node.entries = document.mappings
  | .mapping entries => by
      rw [pieceNodes, List.map_cons, pieceEntryNodes_covers, Document.mappings]
  | .sequence _ | .null | .boolean _ | .integer _ | .decimal _ | .text _ | .broken _ _
  | .fault _ =>
      unreadNodes_covers _

theorem pieceListNodes_covers :
    ∀ document, (pieceListNodes document).map Node.entries = document.mappings
  | .sequence items => by
      rw [pieceListNodes, pieceItemNodes_covers, Document.mappings]
  | .mapping _ | .null | .boolean _ | .integer _ | .decimal _ | .text _ | .broken _ _
  | .fault _ =>
      unreadNodes_covers _

theorem pieceItemNodes_covers :
    ∀ items, (pieceItemNodes items).map Node.entries = Document.mappingsOfItems items
  | [] => rfl
  | item :: rest =>
      map_entries_append (pieceNodes_covers item) (pieceItemNodes_covers rest)

theorem pieceEntryNodes_covers
    (form : NodeForm) :
    ∀ entries, (pieceEntryNodes form entries).map Node.entries =
      Document.mappingsOfEntries entries
  | [] => rfl
  | (key, value) :: rest => by
      refine map_entries_append ?_ (pieceEntryNodes_covers form rest)
      split
      · exact pieceListNodes_covers value
      · split
        · exact choiceNodes_covers rootNames value
        · exact unreadNodes_covers value

end

theorem argumentNodes_covers :
    Covers argumentNodes := by
  intro document
  rw [argumentNodes]
  split
  · exact mappingNodes_covers (fun _ => unreadNodes_covers) document
  · exact pieceNodes_covers document

theorem shellListNodes_covers :
    Covers shellListNodes :=
  mappingNodes_covers fun _ => itemNodes_covers argumentNodes_covers

mutual

theorem lineNodes_covers :
    ∀ document, (lineNodes document).map Node.entries = document.mappings
  | .sequence items =>
      itemNodes_covers argumentNodes_covers (.sequence items)
  | .mapping entries => by
      rw [lineNodes]
      split
      · exact shellListNodes_covers _
      · split
        · rw [List.map_cons, sequenceEntryNodes_covers, Document.mappings]
        · exact pieceNodes_covers _
  | .null | .boolean _ | .integer _ | .decimal _ | .text _ | .broken _ _ | .fault _ =>
      unreadNodes_covers _

theorem lineListNodes_covers :
    ∀ document, (lineListNodes document).map Node.entries = document.mappings
  | .sequence items => by
      rw [lineListNodes, lineItemNodes_covers, Document.mappings]
  | .mapping _ | .null | .boolean _ | .integer _ | .decimal _ | .text _ | .broken _ _
  | .fault _ =>
      unreadNodes_covers _

theorem lineItemNodes_covers :
    ∀ items, (lineItemNodes items).map Node.entries = Document.mappingsOfItems items
  | [] => rfl
  | item :: rest =>
      map_entries_append (lineNodes_covers item) (lineItemNodes_covers rest)

theorem sequenceEntryNodes_covers :
    ∀ entries, (sequenceEntryNodes entries).map Node.entries =
      Document.mappingsOfEntries entries
  | [] => rfl
  | (key, value) :: rest => by
      refine map_entries_append ?_ (sequenceEntryNodes_covers rest)
      split
      · exact lineListNodes_covers value
      · split
        · exact tableNodes_covers pieceNodes_covers value
        · exact unreadNodes_covers value

end

theorem sequenceNodes_covers :
    Covers sequenceNodes := by
  intro document
  cases document with
  | mapping entries =>
      rw [sequenceNodes, List.map_cons, sequenceEntryNodes_covers, Document.mappings]
  | _ =>
      exact unreadNodes_covers _

theorem commandNodes_covers :
    Covers commandNodes := by
  intro document
  rw [commandNodes]
  split
  · exact sequenceNodes_covers document
  · exact lineNodes_covers document

theorem valueNodes_covers :
    Covers valueNodes := by
  intro document
  rw [valueNodes]
  split
  · exact sequenceNodes_covers document
  · split
    · exact itemNodes_covers argumentNodes_covers document
    · exact pieceNodes_covers document

theorem piecesNodes_covers :
    Covers piecesNodes := by
  intro document
  rw [piecesNodes]
  split
  · exact pieceListNodes_covers document
  · exact pieceNodes_covers document

theorem recordNodes_covers
    {form : NodeForm}
    {parts : List (String × (Document → List Node))}
    (covers : ∀ part ∈ parts, Covers part.2) :
    Covers (recordNodes form parts) := by
  refine mappingNodes_covers fun key => ?_
  cases found : (keyName? key).bind fun name => parts.lookup name with
  | none =>
      exact unreadNodes_covers
  | some nodes =>
      obtain ⟨name, -, isPart⟩ := Option.bind_eq_some_iff.mp found
      obtain ⟨before, after, rfl, -⟩ := List.lookup_eq_some_iff.mp isPart
      exact covers (name, nodes) (by simp)

theorem variableNodes_covers :
    Covers variableNodes := by
  refine recordNodes_covers ?_
  simp [unreadNodes_covers, choiceNodes_covers, valueNodes_covers]

theorem ruleNodes_covers :
    Covers ruleNodes := by
  have ofPieces : Covers pieceNodes := pieceNodes_covers
  refine recordNodes_covers ?_
  simp [unreadNodes_covers, commandNodes_covers, ofPieces]

theorem edgeNodes_covers :
    Covers edgeNodes := by
  refine recordNodes_covers ?_
  simp [unreadNodes_covers, piecesNodes_covers, tableNodes_covers, valueNodes_covers]

theorem commandEdgeNodes_covers :
    Covers commandEdgeNodes := by
  refine recordNodes_covers ?_
  simp [unreadNodes_covers, piecesNodes_covers, commandNodes_covers]

/-- Every mapping of a document is a node of the plan in it, and listed once. -/
theorem planNodes_covers :
    Covers planNodes := by
  have ofPieces : Covers pieceNodes := pieceNodes_covers
  refine recordNodes_covers ?_
  simp [unreadNodes_covers, choiceNodes_covers, itemNodes_covers, tableNodes_covers,
    valueNodes_covers, variableNodes_covers, ruleNodes_covers, edgeNodes_covers,
    commandEdgeNodes_covers, ofPieces]

end Plan

end BuildGraph
