import BuildGraph.Document
import BuildGraph.Version.Reader

namespace BuildGraph.Plan

/-!
# Documents that are no plans

A mismatch is the first problem of a document, in the order of its text, that keeps it
from being a plan.
-/

/-- Why a document is no plan. -/
inductive Mismatch where
  /-- The text breaks the rules of its format. -/
  | fault (reason : Fault)
  | missingField (name : String)
  | duplicateField (name : String)
  | unknownField (name : String) (known : List String)
  | wrongKind (found : Kind) (expected : String)
  /-- A mapping where exactly one entry is needed. -/
  | notSingleEntry
  | unknownChoice (name : String) (known : List String)
  /-- Something that fits none of the forms which its place allows. -/
  | noForm (place : String)
  | badVersion (error : Version.ReadError)
  deriving Repr, DecidableEq

/-- Names between backquotes, with commas between them. -/
def listNames (names : List String) : String :=
  ", ".intercalate (names.map fun name => "\x60" ++ name ++ "\x60")

/-- What is wrong with the document, for a reader. -/
def Mismatch.message : Mismatch → String
  | .fault reason => reason.message
  | .missingField name => "missing field \x60" ++ name ++ "\x60"
  | .duplicateField name => "duplicate field \x60" ++ name ++ "\x60"
  | .unknownField name known =>
      "unknown field \x60" ++ name ++ "\x60, expected one of " ++ listNames known
  | .wrongKind found expected =>
      "invalid type: " ++ found.description ++ ", expected " ++ expected
  | .notSingleEntry => "invalid value: map, expected map with a single key"
  | .unknownChoice name known =>
      "unknown variant \x60" ++ name ++ "\x60, expected one of " ++ listNames known
  | .noForm place =>
      "data did not match any variant of untagged enum " ++ place
  | .badVersion error => error.message

end BuildGraph.Plan
