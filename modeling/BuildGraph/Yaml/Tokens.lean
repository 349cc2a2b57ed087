import BuildGraph.Yaml.Content
import BuildGraph.Yaml.Structure

namespace BuildGraph.Yaml

/-!
# The tokens of a text

The tokens of a text are told in their order, up to the first place where the text breaks
a rule.  A token is only told once it is known that no other one has to be put in front
of it, since a colon may show later that a key began there.
-/

/-- Take the token that begins with a character, in front of some text. -/
def scanFrom (character : Char) (behind : List Placed) : Scan Unit := do
  let scanned ← get
  match character with
  | '[' => scanOpening false
  | '\x7b' => scanOpening true
  | ']' => scanClosing false
  | '\x7d' => scanClosing true
  | ',' => scanComma
  | '*' => scanReference
  | '&' => scanName
  | '!' => scanTag
  | '\'' => scanQuoted .single
  | '"' => scanQuoted .double
  | '%' | '@' | '\x60' => failure
  | '-' => if endsWord behind then scanItem else scanPlain
  | '?' => if endsWord behind then scanKeyMark else scanPlain
  | ':' =>
      if endsWord behind then
        scanValueMark
      else if scanned.inBrackets ∧
          (beginsIn isBracketOrComma behind ∨ scanned.closeAt? = some scanned.index) then
        scanCloseValueMark
      else
        scanPlain
  | '|' => if scanned.inBrackets then scanPlain else scanBlockText false
  | '>' => if scanned.inBrackets then scanPlain else scanBlockText true
  | _ => scanPlain

/-- Take the next token and what can be told of the structure in front of it. -/
def scanToken : Scan Unit := do
  Scan.skipBlank
  Scan.dropStaleKey
  Scan.endCollections ((← get).column + 1)
  let scanned ← get
  match scanned.rest with
  | [] => scanFinish
  | first :: behind =>
      if first.character = '\u0000' then
        scanFinish
      else if first.column = 0 ∧ first.character = '%' then
        scanDirective
      else
        match if first.column = 0 then marker? scanned.rest else none with
        | some marker => scanMarker marker
        | none =>
            if first.column + 1 < scanned.margin then
              failure
            else
              scanFrom first.character behind
  Scan.dropStaleKey

/-- The tokens from a place on, by taking at most the given number of steps. -/
def tokensFrom : (steps : Nat) → Scanned → List Token
  | 0, scanned => (scanned.tokens.reverse.take scanned.settled) ++ [.fault]
  | steps + 1, scanned =>
      match scanToken.run scanned with
      | none => (scanned.tokens.reverse.take scanned.settled) ++ [.fault]
      | some (_, next) =>
          if next.tokens.head? = some .finish then
            next.tokens.reverse
          else
            tokensFrom steps next

/--
The tokens of a text.

Every step takes at least a character, so there are steps enough for the whole text.
-/
def tokensOf (text : String) : List Token :=
  let rest := layOut text
  tokensFrom (rest.length + 1) { rest }

end BuildGraph.Yaml
