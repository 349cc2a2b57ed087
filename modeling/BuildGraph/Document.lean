import BuildGraph.Number.Shortest
import BuildGraph.Text.Quoted

namespace BuildGraph

/-!
# Documents

A document is the tree that a text in a data format describes.  Reading never fails as
a whole: where the text breaks the rules of its format, the tree ends in a fault that
says why.  What is made of a document can therefore report the first problem in the
order of the text, whether it is one of the format or one of the contents.
-/

/-- Where a text breaks the rules of its format. -/
inductive Fault where
  | endInValue
  | endInSequence
  | endInMapping
  | endInText
  | expectedColon
  | expectedCommaOrBracket
  | expectedCommaOrBrace
  | expectedValue
  | expectedKeyword
  | invalidEscape
  | invalidNumber
  | numberOutOfRange
  | controlCharacter
  | keyNotText
  | unpairedLowSurrogate
  | unpairedHighSurrogate
  | trailingComma
  | trailingCharacters
  | tooDeep
  deriving Repr, DecidableEq

/-- What is wrong with the text, for a reader. -/
def Fault.message : Fault → String
  | .endInValue => "EOF while parsing a value"
  | .endInSequence => "EOF while parsing a list"
  | .endInMapping => "EOF while parsing an object"
  | .endInText => "EOF while parsing a string"
  | .expectedColon => "expected \x60:\x60"
  | .expectedCommaOrBracket => "expected \x60,\x60 or \x60]\x60"
  | .expectedCommaOrBrace => "expected \x60,\x60 or \x60\x7d\x60"
  | .expectedValue => "expected value"
  | .expectedKeyword => "expected ident"
  | .invalidEscape => "invalid escape"
  | .invalidNumber => "invalid number"
  | .numberOutOfRange => "number out of range"
  | .controlCharacter =>
      "control character (\\u0000-\\u001F) found while parsing a string"
  | .keyNotText => "key must be a string"
  | .unpairedLowSurrogate => "lone leading surrogate in hex escape"
  | .unpairedHighSurrogate => "unexpected end of hex escape"
  | .trailingComma => "trailing comma"
  | .trailingCharacters => "trailing characters"
  | .tooDeep => "recursion limit exceeded"

/-- What stands somewhere in a document, seen from outside. -/
inductive Kind where
  | null
  | boolean (truth : Bool)
  | integer (value : Int)
  | decimal (value : Number.Binary64)
  | text (value : String)
  | sequence
  | mapping
  deriving Repr, DecidableEq

/--
How floating-point numbers appear in messages: without an exponent from the fifth place
behind the point up to sixteen digits in front of it.
-/
def Kind.decimalFormat : Number.DecimalFormat where
  lowestPlain := -5
  highestPlain := 15

/-- What a message calls a kind. -/
def Kind.description : Kind → String
  | .null => "null"
  | .boolean truth => "boolean \x60" ++ toString truth ++ "\x60"
  | .integer value => "integer \x60" ++ toString value ++ "\x60"
  | .decimal value => "floating point \x60" ++ decimalFormat.write value ++ "\x60"
  | .text value => "string " ++ Text.quoted value
  | .sequence => "sequence"
  | .mapping => "map"

/-- What stands at the place of a key. -/
inductive Key where
  /-- A proper key. -/
  | name (name : String)
  /-- A fault in front of the key or in it. -/
  | fault (reason : Fault)

/-- The tree that a text describes, up to the first fault of the text. -/
inductive Document where
  | null
  | boolean (truth : Bool)
  | integer (value : Int)
  | decimal (value : Number.Binary64)
  | text (value : String)
  | sequence (items : List Document)
  | mapping (entries : List (Key × Document))
  /-- Something that begins like nothing, or else like a literal or a number, and is none. -/
  | broken (isNull : Bool) (reason : Fault)
  | fault (reason : Fault)

namespace Document

/-- What a document is, seen from outside, unless it begins with a fault. -/
def kind : Document → Except Fault Kind
  | .null => .ok .null
  | .boolean truth => .ok (.boolean truth)
  | .integer value => .ok (.integer value)
  | .decimal value => .ok (.decimal value)
  | .text value => .ok (.text value)
  | .sequence _ => .ok .sequence
  | .mapping _ => .ok .mapping
  | .broken _ reason | .fault reason => .error reason

/-- Whether a document is nothing. -/
def isNull : Document → Bool
  | .null => true
  | _ => false

/-- The fault at a key, if there is one. -/
def keyFault? : Key → Option Fault
  | .name _ => none
  | .fault reason => some reason

mutual

/-- The first fault in a document, in the order of the text. -/
def firstFault? : Document → Option Fault
  | .broken _ reason | .fault reason => some reason
  | .sequence items => firstFaultOfItems? items
  | .mapping entries => firstFaultOfEntries? entries
  | _ => none

/-- The first fault in the items of a sequence. -/
def firstFaultOfItems? : List Document → Option Fault
  | [] => none
  | item :: rest => item.firstFault? <|> firstFaultOfItems? rest

/-- The first fault in the entries of a mapping. -/
def firstFaultOfEntries? : List (Key × Document) → Option Fault
  | [] => none
  | (key, value) :: rest =>
      keyFault? key <|> value.firstFault? <|> firstFaultOfEntries? rest

end

end Document

end BuildGraph
