import BuildGraph.Table
import Mathlib.Data.List.Basic
import Mathlib.Data.List.Forall2

namespace BuildGraph.Table

/-!
# Insertion into tables

A table is known by its entries.  Insertion under a new key adds an entry behind the others,
and under an old key it changes the value at its place, so a look-up finds what was inserted
last.
-/

/-- Two tables with the same entries are the same. -/
theorem eq_of_entries
    {first second : Table α β}
    (sameEntries : first.entries = second.entries) :
    first = second := by
  cases first
  cases second
  cases sameEntries
  rfl

variable [DecidableEq α]

theorem insertEntry_of_notMem
    {key : α}
    {value : β}
    {entries : List (α × β)}
    (absent : key ∉ entries.map Prod.fst) :
    insertEntry key value entries = entries ++ [(key, value)] := by
  induction entries with
  | nil =>
      rfl
  | cons entry rest inductionHypothesis =>
      rw [List.map_cons, List.mem_cons, not_or] at absent
      rw [insertEntry, if_neg (Ne.symm absent.1), inductionHypothesis absent.2,
        List.cons_append]

/-- Entries with new keys come behind those of a table. -/
theorem entries_foldl_insert
    (table : Table α β)
    {entries : List (α × β)}
    (distinct : ((table.entries ++ entries).map Prod.fst).Nodup) :
    (entries.foldl (fun current entry => current.insert entry.1 entry.2) table).entries =
      table.entries ++ entries := by
  induction entries generalizing table with
  | nil =>
      simp
  | cons entry rest inductionHypothesis =>
      have absent : entry.1 ∉ table.entries.map Prod.fst := by
        rw [List.map_append, List.map_cons, List.nodup_append] at distinct
        exact fun taken => distinct.2.2 _ taken _ List.mem_cons_self rfl
      have inserted :
          (table.insert entry.1 entry.2).entries = table.entries ++ [entry] :=
        insertEntry_of_notMem absent
      have others := inductionHypothesis (table.insert entry.1 entry.2)
      rw [inserted, List.append_assoc] at others
      exact others distinct

/-- A table is put together again from its entries. -/
theorem ofList_entries
    (table : Table α β) :
    ofList table.entries = table :=
  eq_of_entries (entries_foldl_insert empty table.distinct)

/-! ## Looking up what was inserted -/

theorem find?_insertEntry
    (key other : α)
    (value : β)
    (entries : List (α × β)) :
    (insertEntry key value entries).find? (fun entry => entry.1 = other) =
      if key = other then some (key, value)
      else entries.find? fun entry => entry.1 = other := by
  induction entries with
  | nil =>
      simp [insertEntry]
  | cons entry rest inductionHypothesis =>
      unfold insertEntry
      by_cases sameKey : entry.1 = key
      · rw [if_pos sameKey, List.find?_cons, List.find?_cons, sameKey]
        by_cases found : key = other <;> simp [found]
      · rw [if_neg sameKey, List.find?_cons, List.find?_cons, inductionHypothesis]
        by_cases found : key = other
        · have different : entry.1 ≠ other := fun same => sameKey (same.trans found.symm)
          simp [found, different]
        · simp [found]

@[simp] theorem find?_insert_self
    (table : Table α β)
    (key : α)
    (value : β) :
    (table.insert key value).find? key = some value := by
  simp [find?, insert, find?_insertEntry]

theorem find?_insert_of_ne
    (table : Table α β)
    {key other : α}
    (different : other ≠ key)
    (value : β) :
    (table.insert key value).find? other = table.find? other := by
  simp [find?, insert, find?_insertEntry, Ne.symm different]

/-- Entries with the same key and related values. -/
structure RelatedEntry (related : β → γ → Prop) (first : α × β) (second : α × γ) : Prop where
  key : first.1 = second.1
  value : related first.2 second.2

/-- Insertion of related values leaves related entries. -/
theorem forall₂_insertEntry
    {related : β → γ → Prop}
    {entries : List (α × β)}
    {others : List (α × γ)}
    (sameEntries : List.Forall₂ (RelatedEntry related) entries others)
    (key : α)
    {value : β}
    {other : γ}
    (sameValue : related value other) :
    List.Forall₂ (RelatedEntry related)
      (insertEntry key value entries) (insertEntry key other others) := by
  induction sameEntries with
  | nil =>
      exact .cons ⟨rfl, sameValue⟩ .nil
  | cons sameHead sameRest inductionHypothesis =>
      unfold insertEntry
      rw [← sameHead.key]
      split
      · exact .cons ⟨rfl, sameValue⟩ sameRest
      · exact .cons sameHead inductionHypothesis

/-- Related entries make related tables. -/
theorem forall₂_ofList
    {related : β → γ → Prop}
    {entries : List (α × β)}
    {others : List (α × γ)}
    (sameEntries : List.Forall₂ (RelatedEntry related) entries others) :
    List.Forall₂ (RelatedEntry related) (ofList entries).entries (ofList others).entries := by
  have inserted : ∀ (table : Table α β) (otherTable : Table α γ),
      List.Forall₂ (RelatedEntry related) table.entries otherTable.entries →
        List.Forall₂ (RelatedEntry related)
          (entries.foldl (fun current entry => current.insert entry.1 entry.2) table).entries
          (others.foldl (fun current entry => current.insert entry.1 entry.2)
            otherTable).entries := by
    induction sameEntries with
    | nil =>
        exact fun _ _ sameTables => sameTables
    | @cons first second _ _ sameHead _ inductionHypothesis =>
        intro table otherTable sameTables
        obtain ⟨key, value⟩ := first
        obtain ⟨otherKey, other⟩ := second
        obtain ⟨rfl, sameValue⟩ := sameHead
        exact inductionHypothesis _ _ (forall₂_insertEntry sameTables key sameValue)
  exact inserted empty empty .nil

end BuildGraph.Table
