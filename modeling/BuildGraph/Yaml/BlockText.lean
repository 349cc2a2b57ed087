import BuildGraph.Yaml.Layout

namespace BuildGraph.Yaml

/-!
# Texts in blocks

A text may stand on lines of its own, indented more than what it belongs to.  Behind a
bar its line breaks are kept, behind an angle bracket they are folded.  More signs tell
what happens to the line breaks at its end and how far it is indented.
-/

/-- What happens to the line breaks at the end of a text. -/
inductive Ending where
  /-- All of them go. -/
  | strip
  /-- One of them stays. -/
  | clip
  /-- All of them stay. -/
  | keep
  deriving Repr, DecidableEq

/-- The line that a text in a block begins with. -/
structure Header where
  isFolded : Bool
  ending : Ending
  /-- How much more the text is indented than what it belongs to, if that is told. -/
  indentation : Option Nat
  deriving Repr, DecidableEq

/-- The ending that a sign stands for. -/
def Ending.ofSign? : Char → Option Ending
  | '+' => some .keep
  | '-' => some .strip
  | _ => none

/-- The indentation that a digit stands for. -/
def indentationOf? (digit : Char) : Option Nat :=
  if digit.isDigit ∧ digit ≠ '0' then some (digit.toNat - '0'.toNat) else none

/-- The header with the given signs. -/
def Header.ofSigns? (isFolded : Bool) : List Char → Option Header
  | [] => some { isFolded, ending := .clip, indentation := none }
  | [sign] =>
      match Ending.ofSign? sign with
      | some ending => some { isFolded, ending, indentation := none }
      | none => (indentationOf? sign).map fun indentation =>
          { isFolded, ending := .clip, indentation := some indentation }
  | [first, second] =>
      match Ending.ofSign? first with
      | some ending => (indentationOf? second).map fun indentation =>
          { isFolded, ending, indentation := some indentation }
      | none => do
          let indentation ← indentationOf? first
          let ending ← Ending.ofSign? second
          return { isFolded, ending, indentation := some indentation }
  | _ => none

/-- A line of a block, as the block sees it. -/
inductive BlockLine where
  /-- A line with nothing on it. -/
  | empty
  /-- A line of text. -/
  | content (text : List Char)
  /-- The last line of the whole text, with nothing but some spaces on it. -/
  | last (spaces : Nat)
  /-- A line that does not belong to the block. -/
  | outside
  deriving Repr, DecidableEq

/-- The lines of a text, each with what ends it. -/
def linesOf : List Placed → List (List Placed)
  | [] => []
  | first :: rest =>
      if isLineEnd first.character then
        [first] :: linesOf rest
      else
        match linesOf rest with
        | [] => [[first]]
        | line :: others => (first :: line) :: others

/-- How many spaces a line begins with. -/
def leadingSpaces (line : List Placed) : Nat :=
  (front (· = ' ') line).length

/-- Whether a line is ended by a line break. -/
def hasBreak (line : List Placed) : Bool :=
  line.any fun placed => placed.character = '\n'

/--
See a line as a part of a block with the given indentation.

A block without indentation reaches up to the marker that ends a document.
-/
def blockLine (indentation : Nat) (line : List Placed) : BlockLine :=
  let spaces := min (leadingSpaces line) indentation
  let text := line.drop spaces
  if isAtEnd text then
    .last spaces
  else if beginsWith '\n' text then
    .empty
  else if spaces < indentation ∨ indentation = 0 ∧ marker? line = some .finish then
    .outside
  else
    .content (front (fun character => !isLineEnd character) text)

/-- The lines of a block. -/
structure Block where
  /-- The lines of text, each with the number of empty lines in front of it. -/
  contents : List (Nat × List Char)
  /-- Whether the last line of text is not ended by a line break. -/
  isOpen : Bool
  /-- The number of empty lines behind the text. -/
  trailing : Nat
  /-- The spaces on the last line, where the block ends with the whole text. -/
  last? : Option Nat
  /-- The lines behind the block. -/
  rest : List (List Placed)

/-- The lines of a block with the given indentation. -/
def readBlock (indentation : Nat) : (emptyLines : Nat) → List (List Placed) → Block
  | emptyLines, [] =>
      { contents := [], isOpen := false, trailing := emptyLines, last? := some 0
        rest := [] }
  | emptyLines, line :: rest =>
      match blockLine indentation line with
      | .empty => readBlock indentation (emptyLines + 1) rest
      | .last spaces =>
          { contents := [], isOpen := false, trailing := emptyLines, last? := some spaces
            rest := line :: rest }
      | .outside =>
          { contents := [], isOpen := false, trailing := emptyLines, last? := none
            rest := line :: rest }
      | .content text =>
          let block := readBlock indentation 0 rest
          { block with
            contents := (emptyLines, text) :: block.contents
            isOpen := block.isOpen || !hasBreak line }

/-- Whether a line of text begins with a space. -/
def isIndented (text : List Char) : Bool :=
  text.head?.any isSpace

/-- The line breaks between two lines of text. -/
def breaksBetween
    (isFolded : Bool)
    (emptyLines : Nat)
    (before behind : List Char) :
    List Char :=
  if isFolded ∧ ¬ isIndented before ∧ ¬ isIndented behind then
    if emptyLines = 0 then [' '] else List.replicate emptyLines '\n'
  else
    List.replicate (emptyLines + 1) '\n'

/-- Join lines of text behind another one. -/
def joinBehind (isFolded : Bool) : List Char → List (Nat × List Char) → List Char
  | _, [] => []
  | before, (emptyLines, text) :: rest =>
      breaksBetween isFolded emptyLines before text ++ text ++
        joinBehind isFolded text rest

/-- Join all lines of text of a block. -/
def joinLines (isFolded : Bool) : List (Nat × List Char) → List Char
  | [] => []
  | (emptyLines, text) :: rest =>
      List.replicate emptyLines '\n' ++ text ++ joinBehind isFolded text rest

/-- The line breaks at the end of a block that has lines of text. -/
def finalBreaks (ending : Ending) (indentation : Nat) (block : Block) : List Char :=
  let own := if block.isOpen then [] else ['\n']
  let atEnd :=
    if block.isOpen ∨ block.last?.any (max indentation 1 ≤ ·) then ['\n'] else []
  match ending with
  | .strip => []
  | .clip => own ++ atEnd
  | .keep => own ++ atEnd ++ List.replicate block.trailing '\n'

/-- The text of a block without lines of text. -/
def emptyBlockText (ending : Ending) (block : Block) : List Char :=
  match ending, block.last? with
  | .strip, _ => []
  | .clip, some _ => ['\n']
  | .clip, none => []
  | .keep, some _ => List.replicate (max block.trailing 1) '\n'
  | .keep, none => List.replicate block.trailing '\n'

/-- The indentation of a block by its first line of text and the empty ones before. -/
def detectIndentation : List (List Placed) → Nat
  | [] => 0
  | line :: rest =>
      let spaces := leadingSpaces line
      if endsLine (line.drop spaces) then
        max spaces (detectIndentation rest)
      else
        spaces

/-- The indentation of a block in a collection with the given margin. -/
def Header.indentationOf
    (header : Header)
    (margin : Nat)
    (lines : List (List Placed)) :
    Nat :=
  match header.indentation with
  | some more => margin - 1 + more
  | none => max (detectIndentation lines) margin

/-- Whether a block without text is followed by a line that is indented for it, but less. -/
def isTornBlock (margin indentation : Nat) (block : Block) : Bool :=
  block.contents.isEmpty && block.last?.isNone && block.rest.head?.any fun line =>
    margin ≤ leadingSpaces line && leadingSpaces line < indentation

/-- A text that has been read from a block. -/
structure BlockText where
  text : List Char
  /-- Whether the text begins in the first column. -/
  isUnindented : Bool
  /-- What stands behind the block. -/
  rest : List Placed

/-- The text of the block that some lines begin with. -/
def readLines
    (header : Header)
    (margin : Nat)
    (lines : List (List Placed)) :
    Option BlockText :=
  let indentation := header.indentationOf margin lines
  let block := readBlock indentation 0 lines
  if lines.head?.any (beginsWith '\t') ∨ isTornBlock margin indentation block then
    none
  else
    some
      { text :=
          if block.contents.isEmpty then
            emptyBlockText header.ending block
          else
            joinLines header.isFolded block.contents ++
              finalBreaks header.ending indentation block
        isUnindented := indentation = 0
        rest := block.rest.flatten }

/-- Signs of a header. -/
def isHeaderSign (character : Char) : Bool :=
  character.isDigit || character = '+' || character = '-'

/-- The text of a block, from behind the sign that begins its header. -/
def readBlockText
    (isFolded : Bool)
    (margin : Nat)
    (rest : List Placed) :
    Option BlockText := do
  let header ← Header.ofSigns? isFolded (front isHeaderSign rest)
  let lineEnd ← finishLine (behind isHeaderSign rest)
  if isAtEnd lineEnd then
    return { text := [], isUnindented := false, rest := lineEnd }
  else
    readLines header margin (linesOf lineEnd.tail)

end BuildGraph.Yaml
