import BuildGraph.Yaml.Scan

namespace BuildGraph.Yaml

/-!
# Tokens that structure a text

Hyphens, question marks and colons structure collections by indentation; brackets and
commas structure those that stand in brackets.  Documents are separated by markers and
begin with directives.
-/

/-- How many brackets may be open at once. -/
def bracketLimit : Nat := 255

/-- The spaces in front of a text. -/
def frontSpaces (rest : List Placed) : List Char := front isSpace rest

/-- Take the hyphen in front of an item, which a tab does not separate from another one. -/
def scanItem : Scan Unit := do
  let start ← get
  if start.inBrackets ∨ ¬ start.mayBeKey then
    failure
  Scan.advance 1
  Scan.beginCollection start.column start.count .sequenceStart
  let isTabbed := (frontSpaces (← Scan.rest)).contains '\t'
  Scan.skipLine
  let rest ← Scan.rest
  if isTabbed ∧ beginsWith '-' rest ∧ endsWord rest.tail then
    failure
  if beginsIn (fun character => character = '\n' || isBracketOrComma character) rest then
    Scan.indent
  Scan.dropKey
  Scan.allowKey true
  Scan.emit .item

/-- What stands behind spaces, line breaks and comments, but no tabs. -/
def skipUntilTab : (isInComment : Bool) → List Placed → List Placed
  | _, [] => []
  | isInComment, first :: rest =>
      if first.character = '\n' then
        skipUntilTab false rest
      else if first.character = '\u0000' then
        first :: rest
      else if isInComment ∨ first.character = '#' then
        skipUntilTab true rest
      else if first.character = ' ' then
        skipUntilTab false rest
      else
        first :: rest

/-- Take the question mark in front of a key, from which no tab may separate the key. -/
def scanKeyMark : Scan Unit := do
  let start ← get
  if start.inBrackets then
    set { start with isInEntries := true }
  else if start.mayBeKey then
    Scan.beginCollection start.column start.count .mappingStart
  else
    failure
  Scan.dropKey
  Scan.allowKey !start.inBrackets
  Scan.advance 1
  let rest ← Scan.rest
  let behind := skipUntilTab false rest
  if beginsIn (fun character => character = ' ' || character = '\n') rest ∧
      ¬ beginsWith '\t' behind then
    Scan.goTo behind
    Scan.emit .key
  else
    failure

/-- Take the colon in front of a value, which tabs alone do not separate from a word. -/
def scanValueMark : Scan Unit := do
  let start ← get
  let isBareEntry := !start.bareEntries.isEmpty && !start.isInEntries
  if isBareEntry then
    set { start with bareEntries := true :: start.bareEntries.tail }
  Scan.advance 1
  let rest ← Scan.rest
  if beginsWith '\t' rest then
    Scan.skipLine
    if ¬ (frontSpaces rest).contains ' ' ∧ beginsIn isWordCharacter (← Scan.rest) then
      failure
  match start.key? with
  | some key =>
      Scan.insert key.number .key
      if isBareEntry then
        if key.line < start.line then
          failure
        Scan.insert key.number .openMapping
      Scan.beginCollection key.column key.number .mappingStart
      Scan.indent
      modify fun scanned => { scanned with key? := none, mayBeKey := false }
  | none =>
      if isBareEntry then
        Scan.emit .openMapping
      if ¬ start.inBrackets then
        if ¬ start.mayBeKey then
          failure
        Scan.beginCollection start.column start.count .mappingStart
      Scan.indent
      Scan.allowKey !start.inBrackets
  Scan.emit .value

/--
Take a colon in brackets that stands close to what follows.

Only behind quotes and brackets it may stand close to an opening bracket.
-/
def scanCloseValueMark : Scan Unit := do
  let scanned ← get
  if scanned.closeAt? ≠ some scanned.index ∧
      beginsIn (fun character => character = '[' || character = '\x7b')
        scanned.rest.tail then
    failure
  else
    scanValueMark

/-- Take an opening bracket, which may begin a key. -/
def scanOpening (isMapping : Bool) : Scan Unit := do
  Scan.noteKey
  Scan.indent
  let scanned ← get
  if bracketLimit ≤ scanned.outerKeys.length then
    failure
  set { scanned with
    key? := none
    outerKeys := scanned.key? :: scanned.outerKeys
    mayBeKey := true
    isInEntries := scanned.isInEntries || isMapping
    bareEntries :=
      if isMapping then scanned.bareEntries else false :: scanned.bareEntries }
  Scan.advance 1
  Scan.skipLine
  Scan.emit (if isMapping then .openMapping else .openSequence)

/-- End an entry without braces, if one is open. -/
def endBareEntry : Scan Unit := do
  let scanned ← get
  match scanned.bareEntries with
  | true :: outer =>
      set { scanned with isInEntries := false, bareEntries := false :: outer }
      Scan.emit .closeMapping
  | _ => pure ()

/-- Take a closing bracket, behind which a colon may stand close to its value. -/
def scanClosing (isMapping : Bool) : Scan Unit := do
  Scan.dropKey
  modify fun scanned =>
    match scanned.outerKeys with
    | [] => scanned
    | key? :: outerKeys => { scanned with key?, outerKeys }
  Scan.allowKey false
  if ¬ isMapping then
    endBareEntry
    modify fun scanned => { scanned with bareEntries := scanned.bareEntries.tail }
  Scan.advance 1
  Scan.skipLine
  modify fun scanned =>
    if scanned.inBrackets then
      { scanned with closeAt? := some scanned.index }
    else
      scanned
  Scan.emit (if isMapping then .closeMapping else .closeSequence)

/-- Take a comma. -/
def scanComma : Scan Unit := do
  Scan.dropKey
  Scan.allowKey true
  endBareEntry
  Scan.advance 1
  Scan.skipLine
  Scan.emit .comma

/-- End what stands in front of a marker or a directive. -/
def endDocument : Scan Unit := do
  Scan.endCollections 0
  Scan.dropKey
  Scan.allowKey false

/-- Take the marker of a document; nothing else may stand on the line of one that ends it. -/
def scanMarker (marker : Marker) : Scan Unit := do
  endDocument
  Scan.advance 3
  match marker with
  | .start => Scan.emit .documentStart
  | .finish =>
      Scan.emit .documentEnd
      Scan.skipLine
      if ¬ endsLine (← Scan.rest) then
        failure

/-- The number of digits that a part of a version may have at most. -/
def versionDigits : Nat := 9

/-- What stands behind a part of a version. -/
def readVersionPart (rest : List Placed) : Option (List Placed) :=
  let digits := front Char.isDigit rest
  if digits.isEmpty ∨ versionDigits < digits.length then
    none
  else
    some (behind Char.isDigit rest)

/-- A directive as a token, from its name on, and what stands behind it. -/
def readDirective (rest : List Placed) : Option (Token × List Placed) := do
  let name := front isWordCharacter rest
  let text := behind isWordCharacter rest
  if name.isEmpty ∨ ¬ endsWord text then
    failure
  if name = "YAML".toList then
    let point ← readVersionPart (behind isSpace text)
    if beginsWith '.' point then
      return (.versionDirective, ← readVersionPart point.tail)
    else
      failure
  else if name = "TAG".toList then
    let (handle, text) ← readHandle (behind isSpace text)
    if ¬ isOwnHandle handle ∧ handle ≠ ['!'] then
      failure
    let (space, text) ← readSpace (behind isSpace text)
    if endsWord text then
      return (.tagDirective (String.ofList handle) (String.ofList space), text)
    else
      failure
  else
    return (.tagDirective "" "", behind (fun character => !isLineEnd character) text)

/-- Take a directive, which takes a whole line. -/
def scanDirective : Scan Unit := do
  endDocument
  Scan.advance 1
  let token ← Scan.take readDirective
  Scan.goTo (← (finishLine (← Scan.rest) : Option (List Placed)))
  if beginsWith '\n' (← Scan.rest) then
    Scan.advance 1
  Scan.emit token

/-- Take the end of the whole text. -/
def scanFinish : Scan Unit := do
  let scanned ← get
  if (scanned.key? :: scanned.outerKeys).any (·.any PossibleKey.isRequired) then
    failure
  set { scanned with key? := none, outerKeys := scanned.outerKeys.map fun _ => none }
  endDocument
  Scan.emit .finish

end BuildGraph.Yaml
