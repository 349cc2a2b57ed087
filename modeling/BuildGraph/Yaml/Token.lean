import BuildGraph.Yaml.Tag

namespace BuildGraph.Yaml

/-!
# Tokens

A text is first taken apart into tokens.  Some of them stand in the text; others are
not written, like the beginning and the end of a collection that is given by indentation.
-/

/-- How a text was written. -/
inductive Style where
  /-- Without quotes. -/
  | plain
  /-- In quotes or in a block. -/
  | enclosed
  /-- In a folded block whose lines begin in the first column, which is not allowed. -/
  | unindented
  deriving Repr, DecidableEq

/-- A part of a text that has a meaning of its own. -/
inductive Token where
  /-- A directive about the version of the format. -/
  | versionDirective
  /-- Another directive, which may tell what a handle stands for. -/
  | tagDirective (handle space : String)
  | documentStart
  | documentEnd
  /-- The beginning of a sequence by indentation. -/
  | sequenceStart
  /-- The beginning of a mapping by indentation. -/
  | mappingStart
  /-- The end of a collection by indentation. -/
  | collectionEnd
  /-- The beginning of a sequence in brackets. -/
  | openSequence
  /-- The end of a sequence in brackets. -/
  | closeSequence
  /-- The beginning of a mapping in brackets. -/
  | openMapping
  /-- The end of a mapping in brackets. -/
  | closeMapping
  | comma
  /-- The hyphen in front of an item of a sequence. -/
  | item
  /-- The beginning of a key. -/
  | key
  /-- The colon in front of a value. -/
  | value
  /-- A name that is given to a node. -/
  | name (name : String)
  /-- A node that is used again by its name. -/
  | reference (name : String)
  | tag (tag : WrittenTag)
  | text (style : Style) (text : String)
  /-- The end of the whole text. -/
  | finish
  /-- A place where the text breaks a rule, so that nothing more can be told. -/
  | fault
  deriving Repr, DecidableEq

end BuildGraph.Yaml
