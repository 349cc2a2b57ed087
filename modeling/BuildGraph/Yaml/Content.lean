import BuildGraph.Yaml.BlockText
import BuildGraph.Yaml.Plain
import BuildGraph.Yaml.Quoted
import BuildGraph.Yaml.Scan
import BuildGraph.Text.Blank

namespace BuildGraph.Yaml

/-!
# Tokens with contents

Names, references and tags, and texts in all their forms.  Each of them may begin a key.
-/

/-- Take a name that is given to a node. -/
def scanName : Scan Unit := do
  Scan.noteKey
  Scan.allowKey false
  Scan.advance 1
  Scan.emit (.name (← Scan.take readName))

/-- Take a reference to a node with a name. -/
def scanReference : Scan Unit := do
  Scan.noteKey
  Scan.allowKey false
  Scan.advance 1
  Scan.emit (.reference (← Scan.take readName))

/-- Take a tag, which has to stand apart from what follows. -/
def scanTag : Scan Unit := do
  Scan.noteKey
  Scan.allowKey false
  Scan.emit (.tag (← Scan.take readTag))
  let scanned ← get
  if endsWord scanned.rest ∨ scanned.inBrackets ∧ beginsIn isBracketOrComma scanned.rest then
    pure ()
  else
    failure

/-- Take a text in quotes. -/
def scanQuoted (quotes : Quotes) : Scan Unit := do
  let start ← get
  Scan.noteKey
  Scan.allowKey false
  Scan.advance 1
  let text ← Scan.take (readQuoted quotes start.margin 0 (.spaces []))
  Scan.skipLine
  let scanned ← get
  if endsQuoted scanned.inBrackets (start.line = scanned.line) scanned.rest then
    Scan.skipBlank
    modify fun scanned => { scanned with closeAt? := some scanned.index }
    Scan.emit (.text .enclosed (String.ofList text))
  else
    failure

/-- Take a text without quotes. -/
def scanPlain : Scan Unit := do
  Scan.noteKey
  Scan.allowKey false
  Scan.outdent
  let scanned ← get
  if scanned.inBrackets ∧ scanned.column < scanned.margin then
    failure
  let text ← Scan.take (readPlain scanned.inBrackets scanned.margin (.between (.spaces [])))
  if text.isEmpty then
    failure
  if (← Scan.rest).head?.any Placed.isLeading then
    Scan.allowKey true
  Scan.emit (.text .plain (String.ofList text))

/-- Take a text in a block. -/
def scanBlockText (isFolded : Bool) : Scan Unit := do
  Scan.noteKey
  Scan.allowKey true
  Scan.advance 1
  Scan.outdent
  let block ← (readBlockText isFolded (← get).margin (← Scan.rest) : Option BlockText)
  Scan.goTo block.rest
  let isMisplaced := isFolded && block.isUnindented && !block.text.all Text.isBlank
  Scan.emit (.text (if isMisplaced then .unindented else .enclosed)
    (String.ofList block.text))

end BuildGraph.Yaml
