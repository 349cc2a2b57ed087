import BuildGraph.Yaml.Token

namespace BuildGraph.Yaml

/-!
# Going through a text

A text is gone through from its beginning.  On the way it is known which collections are
open, how far to the right their parts have to stand, and which token may turn out to be
a key when a colon follows.  Where the text breaks a rule of the format there is no
result.
-/

/--
A margin: the least column in which parts of what is open may stand.

A collection that begins in a column has its margin in the next one.
-/
structure Margin where
  column : Nat
  /-- Whether a collection by indentation was begun with the margin. -/
  isCollection : Bool
  deriving Repr, DecidableEq

/-- A token that is a key if a colon follows. -/
structure PossibleKey where
  /-- The number of tokens in front of it. -/
  number : Nat
  index : Nat
  line : Nat
  column : Nat
  /-- Whether it has to be a key, because entries of a mapping stand in its column. -/
  isRequired : Bool
  deriving Repr, DecidableEq

/-- How far a text has been gone through. -/
structure Scanned where
  /-- What is left of the text. -/
  rest : List Placed
  /-- The tokens so far, the latest first. -/
  tokens : List Token := []
  /-- The number of tokens so far. -/
  count : Nat := 0
  /-- The margins inside each other, the innermost first. -/
  margins : List Margin := []
  /-- The token of the innermost brackets that may be a key. -/
  key? : Option PossibleKey := none
  /-- The same for what is outside the innermost brackets, one for each open bracket. -/
  outerKeys : List (Option PossibleKey) := []
  /-- Whether the next token may be a key. -/
  mayBeKey : Bool := true
  /-- Whether a mapping in brackets, or a marked entry, was begun latest in brackets. -/
  isInEntries : Bool := false
  /-- For each open square bracket whether an entry without braces is open in it. -/
  bareEntries : List Bool := []
  /-- The index at which a colon may stand close to its value. -/
  closeAt? : Option Nat := none

/-- A way through a part of a text. -/
abbrev Scan := StateT Scanned Option

namespace Scanned

/-- The margin of what is open. -/
def margin (scanned : Scanned) : Nat :=
  (scanned.margins.head?.map Margin.column).getD 0

/-- Whether the innermost margin is one of a collection. -/
def isInCollection (scanned : Scanned) : Bool :=
  scanned.margins.head?.any Margin.isCollection

/-- Whether a bracket is open. -/
def inBrackets (scanned : Scanned) : Bool := !scanned.outerKeys.isEmpty

/-- The line that has been reached. -/
def line (scanned : Scanned) : Nat :=
  (scanned.rest.head?.map Placed.line).getD 0

/-- The column that has been reached. -/
def column (scanned : Scanned) : Nat :=
  (scanned.rest.head?.map Placed.column).getD 0

/-- The index that has been reached. -/
def index (scanned : Scanned) : Nat :=
  (scanned.rest.head?.map Placed.index).getD 0

/-- The number of tokens that stay as they are, whatever follows. -/
def settled (scanned : Scanned) : Nat :=
  match ((scanned.key? :: scanned.outerKeys).reverse.filterMap id).head? with
  | some key => key.number
  | none => scanned.count

end Scanned

namespace Scan

/-- What is left of the text. -/
def rest : Scan (List Placed) := do
  return (← get).rest

/-- Go on at some place. -/
def goTo (rest : List Placed) : Scan Unit :=
  modify fun scanned => { scanned with rest }

/-- Take some characters. -/
def advance (characters : Nat) : Scan Unit :=
  modify fun scanned => { scanned with rest := scanned.rest.drop characters }

/-- Take a part of the text with a reader that only knows the text. -/
def take
    (read : List Placed → Option (Result × List Placed)) :
    Scan Result := do
  let (value, behind) ← (read (← rest) : Option (Result × List Placed))
  goTo behind
  return value

/-- Take spaces and a comment on the current line. -/
def skipLine : Scan Unit := do
  goTo (← (Yaml.skipLine (← rest) : Option (List Placed)))

/-- Go to the next token. -/
def skipBlank : Scan Unit := do
  let scanned ← get
  let behind ← (Yaml.skipBlank scanned.margin .free scanned.rest :
    Option (List Placed))
  goTo behind
  if scanned.line < (← get).line ∧ ¬ scanned.inBrackets then
    modify fun scanned => { scanned with mayBeKey := true }

/-- Add a token. -/
def emit (token : Token) : Scan Unit :=
  modify fun scanned => { scanned with
    tokens := token :: scanned.tokens
    count := scanned.count + 1 }

/-- Add a token behind the given number of tokens. -/
def insert (number : Nat) (token : Token) : Scan Unit :=
  modify fun scanned =>
    let behind := scanned.count - number
    { scanned with
      tokens := scanned.tokens.take behind ++ token :: scanned.tokens.drop behind
      count := scanned.count + 1 }

/-- Tell whether the next token may be a key. -/
def allowKey (mayBeKey : Bool) : Scan Unit :=
  modify fun scanned => { scanned with mayBeKey }

/-- The number of characters that a key may have at most. -/
def keyLimit : Nat := 1024

/-- Give up a possible key that has become too long or that a line break follows. -/
def dropStaleKey : Scan Unit := do
  let scanned ← get
  match scanned.key? with
  | none => pure ()
  | some key =>
      if scanned.inBrackets ∨
          key.line = scanned.line ∧ scanned.index ≤ key.index + keyLimit then
        pure ()
      else if key.isRequired then
        failure
      else
        set { scanned with key? := none }

/-- Give up a possible key. -/
def dropKey : Scan Unit := do
  let scanned ← get
  if scanned.key?.any PossibleKey.isRequired then
    failure
  else
    set { scanned with key? := none }

/-- Remember that the next token may be a key. -/
def noteKey : Scan Unit :=
  modify fun scanned =>
    if scanned.mayBeKey then
      { scanned with
        key? := some
          { number := scanned.count, index := scanned.index, line := scanned.line
            column := scanned.column
            isRequired :=
              !scanned.inBrackets && scanned.isInCollection &&
                scanned.margin = scanned.column + 1 } }
    else
      scanned

/-- End the collections whose margins lie behind a column. -/
def endCollections (column : Nat) : Scan Unit :=
  modify fun scanned =>
    if scanned.inBrackets then
      scanned
    else
      let isInner := fun (margin : Margin) => column < margin.column
      let ended := (scanned.margins.takeWhile isInner).filter Margin.isCollection
      { scanned with
        margins := scanned.margins.dropWhile isInner
        tokens := ended.map (fun _ => .collectionEnd) ++ scanned.tokens
        count := scanned.count + ended.length }

/--
Begin a collection by indentation in a column, unless it has been begun.

The token is added behind the given number of tokens.
-/
def beginCollection (column number : Nat) (token : Token) : Scan Unit := do
  if (← get).inBrackets then
    return
  if (← get).margin ≤ column + 1 ∧ ¬ (← get).isInCollection then
    modify fun scanned => { scanned with margins := scanned.margins.tail }
  if (← get).margin ≤ column then
    modify fun scanned => { scanned with
      margins := { column := column + 1, isCollection := true } :: scanned.margins }
    insert number token

/-- Let the parts of what follows stand one column further to the right. -/
def indent : Scan Unit :=
  modify fun scanned =>
    if !scanned.inBrackets && scanned.isInCollection then
      { scanned with
        margins := { column := scanned.margin + 1, isCollection := false } ::
          scanned.margins }
    else
      scanned

/-- Take such a step to the right back. -/
def outdent : Scan Unit :=
  modify fun scanned => { scanned with
    margins := scanned.margins.dropWhile fun margin => !margin.isCollection }

end Scan

end BuildGraph.Yaml
