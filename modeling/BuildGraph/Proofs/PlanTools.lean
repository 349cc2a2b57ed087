import BuildGraph.Proofs.AppliedPlans
import BuildGraph.Proofs.Tables

namespace BuildGraph

/-!
# Tools of a plan

Wherever a node of a plan refers to a tool, the resolved node holds a tool of that name, and
its invocation is what the look-up gives for the name.  In an accepted plan every reference
therefore names a tool of the plan whose own definition refers to none.
-/

namespace Plan

/-! ## References to tools -/

/-- The tool that an argument refers to. -/
def Argument.toolName? : Argument → Option String
  | .tool name => some name
  | .piece _ => none

mutual

/-- The tools that a line refers to, in order. -/
def Line.toolNames : Line → List String
  | .arguments arguments | .shellList arguments => arguments.filterMap Argument.toolName?
  | .nested sequence => sequence.toolNames
  | .script _ => []

/-- The tools that several lines refer to, in order. -/
def Line.toolNamesOf : List Line → List String
  | [] => []
  | line :: rest => line.toolNames ++ Line.toolNamesOf rest

/-- The tools that a command sequence refers to, in order. -/
def Sequence.toolNames : Sequence → List String
  | .mk lines _ => Line.toolNamesOf lines

end

/-- The tools that a command refers to, in order. -/
def Command.toolNames : Command → List String
  | .sequence lines => lines.toolNames
  | .line single => single.toolNames

/-- The tools that a value refers to, in order. -/
def Value.toolNames : Value → List String
  | .sequence lines => lines.toolNames
  | .words arguments => arguments.filterMap Argument.toolName?
  | .piece _ => []

/-- The overrides of an edge by variable; of two names for one variable the last value counts. -/
def EdgeEntry.overridesByVariable (entry : EdgeEntry) : Table Variable Value :=
  .ofList (entry.overrides.entries.map fun override => (.ofString override.1, override.2))

/-- The tools that any part of a plan refers to, overrides that do not count included. -/
def toolNames (plan : Plan) : List String :=
  plan.variableEntries.flatMap (·.value.toolNames) ++
    plan.rules.flatMap (·.command.toolNames) ++
    plan.edges.flatMap (·.overrides.values.flatMap Value.toolNames) ++
    plan.commandEdges.flatMap (·.command.toolNames)

/-! ## Resolving references -/

/-- Tools with the given names, each with the invocation that the look-up gives for it. -/
structure Finds (tools : Lookup) (names : List String) (found : List Tool) : Prop where
  names : found.map Tool.name = names
  invocations : ∀ tool ∈ found, tools tool.name = .ok tool.invocation

namespace Finds

theorem nil
    (tools : Lookup) :
    Finds tools [] [] :=
  ⟨rfl, fun _ member => absurd member List.not_mem_nil⟩

theorem append
    {tools : Lookup}
    {names others : List String}
    {found otherFound : List Tool}
    (first : Finds tools names found)
    (second : Finds tools others otherFound) :
    Finds tools (names ++ others) (found ++ otherFound) where
  names := by rw [List.map_append, first.names, second.names]
  invocations := List.forall_mem_append.mpr ⟨first.invocations, second.invocations⟩

/-- Related items refer to tools and hold them, one after the other. -/
theorem flatMap
    {tools : Lookup}
    {namesOf : Item → List String}
    {toolsOf : Result → List Tool}
    {items : List Item}
    {results : List Result}
    (each : List.Forall₂ (fun item result => Finds tools (namesOf item) (toolsOf result))
      items results) :
    Finds tools (items.flatMap namesOf) (results.flatMap toolsOf) := by
  induction each with
  | nil =>
      exact .nil tools
  | cons first _ inductionHypothesis =>
      exact first.append inductionHypothesis

theorem lookup
    {tools : Lookup}
    {names : List String}
    {found : List Tool}
    (finds : Finds tools names found)
    {name : String}
    (member : name ∈ names) :
    ∃ invocation, tools name = .ok invocation := by
  rw [← finds.names, List.mem_map] at member
  obtain ⟨tool, isFound, rfl⟩ := member
  exact ⟨tool.invocation, finds.invocations tool isFound⟩

/-- Where no tool is known, none is referred to. -/
theorem eq_nil
    {names : List String}
    {found : List Tool}
    (finds : Finds noTools names found) :
    names = [] ∧ found = [] := by
  cases found with
  | nil =>
      exact ⟨finds.names.symm, rfl⟩
  | cons tool rest =>
      have resolvable := finds.invocations tool List.mem_cons_self
      cases resolvable

end Finds

theorem Argument.finds
    {tools : Lookup}
    {arguments : List Argument}
    {resolved : List BuildGraph.Argument}
    (resolves : arguments.mapM (Argument.resolve tools) = .ok resolved) :
    Finds tools (arguments.filterMap Argument.toolName?)
      (BuildGraph.Argument.toolsOf resolved) := by
  rw [mapM_eq_ok_iff] at resolves
  induction resolves with
  | nil =>
      exact .nil tools
  | @cons argument _ _ _ first _ inductionHypothesis =>
      cases argument with
      | piece content =>
          cases first
          exact inductionHypothesis
      | tool name =>
          obtain ⟨invocation, isFound, rfl⟩ := functorMap_eq_ok_iff.mp first
          have head : Finds tools [name] [{ name, invocation }] :=
            ⟨rfl, List.forall_mem_singleton.mpr isFound⟩
          exact head.append inductionHypothesis

mutual

theorem Line.finds
    {tools : Lookup} :
    ∀ {line : Line} {resolved : BuildGraph.Line},
      line.resolve tools = .ok resolved → Finds tools line.toolNames resolved.tools
  | .arguments arguments, resolved, resolves => by
      obtain ⟨content, resolvesContent, rfl⟩ := functorMap_eq_ok_iff.mp resolves
      exact Argument.finds resolvesContent
  | .shellList arguments, resolved, resolves => by
      obtain ⟨content, resolvesContent, rfl⟩ := functorMap_eq_ok_iff.mp resolves
      exact Argument.finds resolvesContent
  | .nested sequence, resolved, resolves => by
      obtain ⟨content, resolvesContent, rfl⟩ := functorMap_eq_ok_iff.mp resolves
      exact Sequence.finds resolvesContent
  | .script script, resolved, resolves => by
      cases resolves
      exact .nil tools

theorem Line.findsAll
    {tools : Lookup} :
    ∀ {lines : List Line} {resolved : List BuildGraph.Line},
      Line.resolveAll tools lines = .ok resolved →
        Finds tools (Line.toolNamesOf lines) (BuildGraph.Line.toolsOf resolved)
  | [], resolved, resolves => by
      cases resolves
      exact .nil tools
  | line :: rest, resolved, resolves => by
      rw [Line.resolveAll] at resolves
      obtain ⟨first, resolvesFirst, resolves⟩ := bind_eq_ok_exists_iff.mp resolves
      obtain ⟨others, resolvesOthers, ⟨⟩⟩ := bind_eq_ok_exists_iff.mp resolves
      exact (Line.finds resolvesFirst).append (Line.findsAll resolvesOthers)

theorem Sequence.finds
    {tools : Lookup} :
    ∀ {sequence : Sequence} {resolved : Commands},
      sequence.resolve tools = .ok resolved → Finds tools sequence.toolNames resolved.tools
  | .mk lines environment, resolved, resolves => by
      rw [Sequence.resolve] at resolves
      obtain ⟨all, resolvesAll, resolves⟩ := bind_eq_ok_exists_iff.mp resolves
      have inLines := Line.findsAll resolvesAll
      cases all with
      | nil =>
          -- A sequence without lines is refused.
          cases resolves
      | cons first rest =>
          cases resolves
          exact inLines

end

theorem Command.finds
    {tools : Lookup}
    {command : Command}
    {resolved : Commands}
    (resolves : command.resolve tools = .ok resolved) :
    Finds tools command.toolNames resolved.tools := by
  cases command with
  | sequence lines =>
      exact Sequence.finds resolves
  | line single =>
      obtain ⟨content, resolvesContent, rfl⟩ := functorMap_eq_ok_iff.mp resolves
      have inLine := (Line.finds resolvesContent).append (.nil tools)
      rwa [List.append_nil] at inLine

/-- What a value refers to is what its resolved form holds. -/
theorem Value.finds
    {tools : Lookup}
    {value : Value}
    {resolved : BuildGraph.Value}
    (resolves : value.resolve tools = .ok resolved) :
    Finds tools value.toolNames resolved.tools := by
  cases value with
  | sequence lines =>
      obtain ⟨content, resolvesContent, rfl⟩ := functorMap_eq_ok_iff.mp resolves
      exact Sequence.finds resolvesContent
  | words arguments =>
      obtain ⟨content, resolvesContent, rfl⟩ := functorMap_eq_ok_iff.mp resolves
      exact Argument.finds resolvesContent
  | piece content =>
      cases resolves
      exact .nil tools

/-- A tool is found if the table has a definition for it that refers to no tools. -/
theorem definition_of_lookupIn
    {table : Table String Value}
    {name : String}
    {invocation : BuildGraph.Value}
    (isFound : lookupIn table name = .ok invocation) :
    (∃ definition, table.find? name = some definition ∧ definition.toolNames = []) ∧
      invocation.tools = [] := by
  unfold lookupIn at isFound
  split at isFound
  · next definition isDefinition =>
      -- A definition is resolved where no tool is known.
      obtain ⟨noNames, noneFound⟩ := (Value.finds isFound).eq_nil
      exact ⟨⟨definition, isDefinition, noNames⟩, noneFound⟩
  · cases isFound

/-- Every override of a resolved edge is resolved, and those that count become its own. -/
theorem EdgeEntry.resolve_overrides
    {tools : Lookup}
    {entry : EdgeEntry}
    {edge : Edge}
    (resolves : entry.resolve tools = .ok edge) :
    (∀ value ∈ entry.overrides.values, ∃ resolved, value.resolve tools = .ok resolved) ∧
      List.Forall₂
        (Table.RelatedEntry fun value resolved => Value.resolve tools value = .ok resolved)
        entry.overridesByVariable.entries edge.overrides.entries := by
  obtain ⟨table, resolvesTable, ⟨⟩⟩ := bind_eq_ok_exists_iff.mp resolves
  obtain ⟨entries, resolvesEntries, ⟨⟩⟩ := bind_eq_ok_exists_iff.mp resolvesTable
  have sameEntries :
      List.Forall₂
        (fun override resolved =>
          Table.RelatedEntry (fun value resolved => Value.resolve tools value = .ok resolved)
            (Variable.ofString override.1, override.2) resolved)
        entry.overrides.entries entries := by
    refine (mapM_eq_ok_iff.mp resolvesEntries).imp fun override resolved isResolved => ?_
    obtain ⟨value, resolvesValue, ⟨⟩⟩ := bind_eq_ok_exists_iff.mp isResolved
    exact ⟨rfl, resolvesValue⟩
  constructor
  · rw [Table.values, List.forall_mem_map]
    intro override member
    obtain ⟨resolved, _, isResolved⟩ := exists_related_of_mem sameEntries member
    exact ⟨resolved.2, isResolved.value⟩
  · exact Table.forall₂_ofList (List.forall₂_map_left_iff.mpr sameEntries)

theorem EdgeEntry.finds
    {tools : Lookup}
    {entry : EdgeEntry}
    {edge : Edge}
    (resolves : entry.resolve tools = .ok edge) :
    Finds tools (entry.overridesByVariable.values.flatMap Value.toolNames)
      (BuildFile.toolsOfEdge edge) := by
  have inOverrides :
      Finds tools
        (entry.overridesByVariable.entries.flatMap fun override => override.2.toolNames)
        (edge.overrides.entries.flatMap fun override => override.2.tools) :=
    .flatMap ((entry.resolve_overrides resolves).2.imp fun _ _ same => Value.finds same.value)
  rwa [Table.values, List.flatMap_map]

end Plan

end BuildGraph
