import BuildGraph.Json.Token

namespace BuildGraph.Json

/-!
# Reading JSON

The reader goes through the tokens once and keeps the sequences and mappings that are
still open.  At the first fault it closes all of them around the fault, so the document
holds everything that stands in front of it.
-/

/-- A sequence or mapping that is still open, with its latest contents first. -/
inductive Frame where
  | sequence (items : List Document)
  | mapping (entries : List (Key × Document))
  /-- A mapping whose latest key has no value yet. -/
  | entry (entries : List (Key × Document)) (key : String)

/-- What may come next. -/
inductive Expected where
  | value
  | firstItem
  | nextItem
  | firstKey
  | nextKey
  | colon
  | separator
  deriving Repr, DecidableEq

/-- Put a document into the innermost open place and close all places around it. -/
def closeAround : Document → List Frame → Document
  | document, [] => document
  | document, .sequence items :: outer =>
      closeAround (.sequence (items.reverse ++ [document])) outer
  | document, .entry entries key :: outer =>
      closeAround (.mapping (entries.reverse ++ [(.name key, document)])) outer
  | _, .mapping entries :: outer =>
      closeAround (.mapping entries.reverse) outer

/-- Put something at the place of the next key and close all places around it. -/
def closeAroundKey : Key → List Frame → Document
  | key, .mapping entries :: outer =>
      closeAround (.mapping (entries.reverse ++ [(key, .null)])) outer
  | _, frames => closeAround .null frames

/-- How far the reader has come. -/
inductive Progress where
  /-- In the middle of the document. -/
  | inside (expected : Expected) (frames : List Frame)
  /-- At its end. -/
  | complete (document : Document)
  /-- Behind its end, with something else there. -/
  | beyond (document : Document)
  /-- At a fault. -/
  | stopped (document : Document)

/-- Stop at a fault at the place of a value. -/
def stopAt (fault : Fault) (frames : List Frame) : Progress :=
  .stopped (closeAround (.fault fault) frames)

/-- Stop at the place of a separator, behind an item or an entry. -/
def stopAtSeparator (fault : Fault) (frames : List Frame) : Progress :=
  match frames with
  | .mapping _ :: _ => .stopped (closeAroundKey (.fault fault) frames)
  | frames => stopAt fault frames

/-- Put a whole value into its place. -/
def deliver (value : Document) : List Frame → Progress
  | [] => .complete value
  | .sequence items :: outer =>
      .inside .separator (.sequence (value :: items) :: outer)
  | .entry entries key :: outer =>
      .inside .separator (.mapping ((.name key, value) :: entries) :: outer)
  | .mapping entries :: outer =>
      .inside .separator (.mapping entries :: outer)

/-- Close the innermost open place. -/
def closeFrame : List Frame → Progress
  | [] => .complete .null
  | .sequence items :: outer => deliver (.sequence items.reverse) outer
  | .mapping entries :: outer | .entry entries _ :: outer =>
      deliver (.mapping entries.reverse) outer

/-- How many sequences and mappings may be open at once. -/
def depthLimit : Nat := 127

/-- Open another place, unless too many are open. -/
def openFrame (expected : Expected) (frame : Frame) (frames : List Frame) : Progress :=
  if frames.length < depthLimit then
    .inside expected (frame :: frames)
  else
    stopAt .tooDeep frames

/-- Begin a value with a token. -/
def beginValue (token : Token) (frames : List Frame) : Progress :=
  match token with
  | .scalar value => deliver value frames
  | .openSequence => openFrame .firstItem (.sequence []) frames
  | .openMapping => openFrame .firstKey (.mapping []) frames
  | .broken isNull fault => .stopped (closeAround (.broken isNull fault) frames)
  | .brokenText fault => stopAt fault frames
  | _ => stopAt .expectedValue frames

/-- Begin an entry with a token. -/
def beginEntry (token : Token) (frames : List Frame) : Progress :=
  match token, frames with
  | .scalar (.text key), .mapping entries :: outer =>
      .inside .colon (.entry entries key :: outer)
  | .brokenText fault, frames => .stopped (closeAroundKey (.fault fault) frames)
  | _, frames => .stopped (closeAroundKey (.fault .keyNotText) frames)

/-- Go on behind an item or an entry. -/
def passSeparator (token : Token) (frames : List Frame) : Progress :=
  match token, frames with
  | .comma, .sequence _ :: _ => .inside .nextItem frames
  | .closeSequence, .sequence _ :: _ => closeFrame frames
  | _, .sequence _ :: _ => stopAt .expectedCommaOrBracket frames
  | .comma, _ => .inside .nextKey frames
  | .closeMapping, _ => closeFrame frames
  | _, _ => stopAtSeparator .expectedCommaOrBrace frames

/-- Go on by one token. -/
def advance (progress : Progress) (token : Token) : Progress :=
  match progress with
  | .inside .value frames => beginValue token frames
  | .inside .firstItem frames =>
      match token with
      | .closeSequence => closeFrame frames
      | token => beginValue token frames
  | .inside .nextItem frames =>
      match token with
      | .closeSequence => stopAt .trailingComma frames
      | token => beginValue token frames
  | .inside .firstKey frames =>
      match token with
      | .closeMapping => closeFrame frames
      | token => beginEntry token frames
  | .inside .nextKey frames =>
      match token with
      | .closeMapping => .stopped (closeAroundKey (.fault .trailingComma) frames)
      | token => beginEntry token frames
  | .inside .colon frames =>
      match token with
      | .colon => .inside .value frames
      | _ => stopAt .expectedColon frames
  | .inside .separator frames => passSeparator token frames
  | .complete document | .beyond document => .beyond document
  | .stopped document => .stopped document

/-- The fault of a text that ends where something else has to come. -/
def endFault (expected : Expected) (frames : List Frame) : Fault :=
  match expected, frames with
  | .value, _ | .nextItem, _ | .nextKey, _ => .endInValue
  | .firstItem, _ => .endInSequence
  | .firstKey, _ | .colon, _ => .endInMapping
  | .separator, .sequence _ :: _ => .endInSequence
  | .separator, _ => .endInMapping

/-- A document, and whether something else stands behind it. -/
structure Reading where
  document : Document
  hasMore : Bool

/-- What has been read when there are no more tokens. -/
def finish : Progress → Reading
  | .complete document | .stopped document =>
      { document, hasMore := false }
  | .beyond document => { document, hasMore := true }
  | .inside expected frames =>
      let fault := endFault expected frames
      let document :=
        match expected with
        | .firstKey | .nextKey => closeAroundKey (.fault fault) frames
        | .separator =>
            match frames with
            | .mapping _ :: _ => closeAroundKey (.fault fault) frames
            | frames => closeAround (.fault fault) frames
        | _ => closeAround (.fault fault) frames
      { document, hasMore := false }

/-- The document that a JSON text describes. -/
def read (text : String) : Reading :=
  finish ((tokens 0 text.toList).foldl advance (.inside .value []))

end BuildGraph.Json
