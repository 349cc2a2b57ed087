import BuildGraph.Plan.Mismatch
import BuildGraph.Table

namespace BuildGraph.Plan

/-!
# Reading the parts of a document

A reader takes a document and yields what it stands for, or the first mismatch in it.
Mappings with fixed keys are read by a description of their fields: all keys and values
are checked in the order of the text, and only then missing fields are reported.
-/

/-- A reader of documents. -/
abbrev Reader (Result : Type) := Document → Except Mismatch Result

/-- Reject a document of the wrong kind, or report the fault that it begins with. -/
def rejectKind (expected : String) (document : Document) : Except Mismatch Result :=
  match document.kind with
  | .ok found => .error (.wrongKind found expected)
  | .error fault => .error (.fault fault)

/-- Read a text. -/
def readText : Reader String
  | .text value => .ok value
  | document => rejectKind "a string" document

/-- Read a truth value. -/
def readBoolean : Reader Bool
  | .boolean truth => .ok truth
  | document => rejectKind "a boolean" document

/-- Read something that may be left empty. -/
def readOptional (read : Reader Result) : Reader (Option Result)
  | .null => .ok none
  | .broken true fault => .error (.fault fault)
  | document => some <$> read document

/-- Read items one after the other. -/
def readItems (read : Reader Item) : List Document → Except Mismatch (List Item)
  | [] => .ok []
  | item :: rest => do
      let first ← read item
      let others ← readItems read rest
      return first :: others

/-- Read a sequence. -/
def readSequence (read : Reader Item) : Reader (List Item)
  | .sequence items => readItems read items
  | document => rejectKind "a sequence" document

/-- The name that a key is, or the fault at its place. -/
def readKey : Key → Except Mismatch String
  | .name name => .ok name
  | .fault fault => .error (.fault fault)

/-- Read entries with names of any kind, one after the other. -/
def readNamedEntries
    (read : Reader Result) :
    List (Key × Document) →
    Except Mismatch (List (String × Result))
  | [] => .ok []
  | (key, value) :: rest => do
      let name ← readKey key
      let first ← read value
      let others ← readNamedEntries read rest
      return (name, first) :: others

/-- Read a mapping with names of any kind; a repeated name takes its last value. -/
def readTable (read : Reader Result) : Reader (Table String Result)
  | .mapping entries => Table.ofList <$> readNamedEntries read entries
  | document => rejectKind "a map" document

/-- Read a form that is recognised only by trying it on a whole document. -/
def readForm (place : String) (form : Document → Option Result) : Reader Result :=
  fun document =>
    match document.firstFault? with
    | some fault => .error (.fault fault)
    | none =>
        match form document with
        | some result => .ok result
        | none => .error (.noForm place)

/-- The value under a name. -/
def valueOf? (name : String) : List (Key × Document) → Option Document
  | [] => none
  | (.name other, value) :: rest =>
      if other = name then some value else valueOf? name rest
  | _ :: rest => valueOf? name rest

/-- A description of the fields of a mapping, and what is made of them. -/
structure Fields (Result : Type) where
  /-- The names of the fields, in the order in which they are listed. -/
  names : List String
  /-- Check the value of the field with the given name. -/
  check : String → Document → Except Mismatch Unit
  /-- Put the fields together. -/
  build : List (Key × Document) → Except Mismatch Result

namespace Fields

/-- No fields. -/
def none (result : Result) : Fields Result where
  names := []
  check := fun _ _ => .ok ()
  build := fun _ => .ok result

/-- Another field behind the others. -/
def andField
    (fields : Fields (Content → Result))
    (name : String)
    (read : Reader Content)
    (whenMissing : Except Mismatch Content) :
    Fields Result where
  names := fields.names ++ [name]
  check := fun candidate document =>
    if candidate = name then
      (read document).map fun _ => ()
    else
      fields.check candidate document
  build := fun entries => do
    let combine ← fields.build entries
    let value ←
      match valueOf? name entries with
      | some document => read document
      | Option.none => whenMissing
    return combine value

/-- Another field that has to be there. -/
def required
    (fields : Fields (Content → Result))
    (name : String)
    (read : Reader Content) :
    Fields Result :=
  fields.andField name read (.error (.missingField name))

/-- Another field with a value that it has when it is missing. -/
def withDefault
    (fields : Fields (Content → Result))
    (name : String)
    (read : Reader Content)
    (value : Content) :
    Fields Result :=
  fields.andField name read (.ok value)

/-- Check entries in order, knowing which fields have come already. -/
def checkEntries
    (fields : Fields Result)
    (seen : List String) :
    List (Key × Document) →
    Except Mismatch Unit
  | [] => .ok ()
  | (key, value) :: rest => do
      let name ← readKey key
      if name ∉ fields.names then
        throw (.unknownField name fields.names)
      if name ∈ seen then
        throw (.duplicateField name)
      fields.check name value
      checkEntries fields (name :: seen) rest

/-- Read a mapping that has these fields and no others. -/
def read (fields : Fields Result) : Reader Result
  | .mapping entries => do
      fields.checkEntries [] entries
      fields.build entries
  | document => rejectKind "a map" document

end Fields

end BuildGraph.Plan
