namespace BuildGraph

/-!
# Tables in order of insertion

A table holds one value for each key.  A new key takes the last place; a key that is
already there keeps its place and takes the new value.
-/

namespace Table

/-- Put a value under a key, in the key's old place or at the end. -/
def insertEntry
    [DecidableEq α]
    (key : α)
    (value : β) :
    List (α × β) → List (α × β)
  | [] => [(key, value)]
  | entry :: rest =>
      if entry.1 = key then
        (key, value) :: rest
      else
        entry :: insertEntry key value rest

/-- Insertion keeps the keys and their order, and adds a new one at the end. -/
theorem keys_insertEntry
    [DecidableEq α]
    (key : α)
    (value : β)
    (entries : List (α × β)) :
    (insertEntry key value entries).map Prod.fst =
      if key ∈ entries.map Prod.fst then
        entries.map Prod.fst
      else
        entries.map Prod.fst ++ [key] := by
  induction entries with
  | nil =>
      simp [insertEntry]
  | cons entry rest inductionHypothesis =>
      by_cases sameKey : entry.1 = key
      · simp [insertEntry, sameKey]
      · have differentKey : ¬ key = entry.1 := fun same => sameKey same.symm
        simp only [insertEntry, sameKey, ↓reduceIte, List.map_cons,
          inductionHypothesis, List.mem_cons, differentKey, false_or]
        split <;> rfl

end Table

/-- A table from keys to values, in the order in which the keys were first inserted. -/
structure Table (α β : Type) where
  entries : List (α × β)
  distinct : (entries.map Prod.fst).Nodup
  deriving DecidableEq

namespace Table

/-- The table without entries. -/
def empty : Table α β where
  entries := []
  distinct := by simp

instance : EmptyCollection (Table α β) := ⟨empty⟩

instance : Inhabited (Table α β) := ⟨empty⟩

/-- The keys of a table, in order. -/
def keys (table : Table α β) : List α :=
  table.entries.map Prod.fst

/-- The values of a table, in the order of their keys. -/
def values (table : Table α β) : List β :=
  table.entries.map Prod.snd

/-- Put a value under a key; a repeated key keeps its place and takes the new value. -/
def insert
    [DecidableEq α]
    (table : Table α β)
    (key : α)
    (value : β) :
    Table α β where
  entries := insertEntry key value table.entries
  distinct := by
    have oldDistinct := table.distinct
    rw [keys_insertEntry]
    split
    · exact oldDistinct
    · next absent =>
        rw [List.nodup_append]
        refine ⟨oldDistinct, by simp, ?_⟩
        intro first firstMember second secondMember
        simp only [List.mem_singleton] at secondMember
        subst secondMember
        intro same
        exact absent (same ▸ firstMember)

/-- The table that a list of entries builds by inserting them in turn. -/
def ofList
    [DecidableEq α]
    (entries : List (α × β)) :
    Table α β :=
  entries.foldl (fun table entry => table.insert entry.1 entry.2) empty

/-- The value under a key. -/
def find?
    [DecidableEq α]
    (table : Table α β)
    (key : α) :
    Option β :=
  (table.entries.find? fun entry => entry.1 = key).map Prod.snd

/-- Take a key and its value away. -/
def erase
    [DecidableEq α]
    (table : Table α β)
    (key : α) :
    Table α β where
  entries := table.entries.filter fun entry => entry.1 ≠ key
  distinct :=
    table.distinct.sublist (List.filter_sublist.map Prod.fst)

/-- Change every value, and keep the keys and their order. -/
def mapValues
    (change : β → Result)
    (table : Table α β) :
    Table α Result where
  entries := table.entries.map fun entry => (entry.1, change entry.2)
  distinct := by
    have oldDistinct := table.distinct
    simpa [List.map_map, Function.comp_def] using oldDistinct

end Table

end BuildGraph
