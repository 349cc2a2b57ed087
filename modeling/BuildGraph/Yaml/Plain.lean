import BuildGraph.Yaml.Pause

namespace BuildGraph.Yaml

/-!
# Plain texts

A text without quotes ends at a colon that stands at the end of a word, at a comment, and
where a line is not indented enough; in brackets it ends at brackets and commas instead
of lines.  It also ends where a line begins with the marker of a document, wherever the
marker stands on the line.
-/

/-- Whether a plain text ends in front of what follows. -/
def endsPlain (inBrackets : Bool) : List Placed → Bool
  | [] => true
  | first :: rest =>
      if first.character = ':' then
        endsWord rest || inBrackets && beginsIn isBracketOrComma rest
      else
        first.character = '\u0000' || inBrackets && isBracketOrComma first.character

/-- Whether a text begins with a hyphen in front of a bracket or a comma. -/
def isStrayHyphen : List Placed → Bool
  | first :: rest => first.character = '-' && beginsIn isBracketOrComma rest
  | [] => false

/-- Whether a plain text ends behind a pause, because of what follows. -/
def endsBehindPause
    (inBrackets : Bool)
    (least : Nat)
    (pause : Pause) :
    List Placed → Bool
  | [] => true
  | first :: rest =>
      first.character = '#' ||
        first.isLeading && (marker? (first :: rest)).isSome ||
        !inBrackets && pause.isBetweenLines && first.column < least

/-- A place in a plain text. -/
inductive Stretch where
  /-- In a word. -/
  | word
  /-- In front of a word, behind a pause. -/
  | between (pause : Pause)
  /-- Behind a tab that stands where only spaces may, so that no word may follow. -/
  | barred (pause : Pause)
  /-- In a comment behind such a tab. -/
  | comment (pause : Pause)

/-- The place behind a line break. -/
def Stretch.addBreak : Stretch → Stretch
  | .word => .between (.breaks 0)
  | .between pause | .barred pause | .comment pause => .between pause.addBreak

/-- A plain text, and what stands behind it and the pause that follows it. -/
def readPlain
    (inBrackets : Bool)
    (least : Nat) :
    Stretch → List Placed → Option (List Char × List Placed)
  | _, [] => some ([], [])
  | stretch, first :: rest =>
      if first.character = '\n' then
        readPlain inBrackets least stretch.addBreak rest
      else
        match stretch with
        | .word =>
            if isSpace first.character then
              readPlain inBrackets least (.between (.spaces [first.character])) rest
            else if endsPlain inBrackets (first :: rest) then
              some ([], first :: rest)
            else
              (readPlain inBrackets least .word rest).map fun (text, behind) =>
                (first.character :: text, behind)
        | .between pause =>
            if isSpace first.character then
              if pause.isBetweenLines ∧ first.character = '\t' ∧ first.column < least then
                readPlain inBrackets least (.barred pause) rest
              else
                readPlain inBrackets least (.between (pause.addSpace first.character)) rest
            else if endsBehindPause inBrackets least pause (first :: rest) then
              some ([], first :: rest)
            else if inBrackets ∧ isStrayHyphen (first :: rest) then
              none
            else if endsPlain inBrackets (first :: rest) then
              some ([], first :: rest)
            else
              (readPlain inBrackets least .word rest).map fun (text, behind) =>
                (pause.text ++ first.character :: text, behind)
        | .barred pause =>
            if isSpace first.character then
              readPlain inBrackets least (.barred pause) rest
            else if first.character = '#' then
              readPlain inBrackets least (.comment pause) rest
            else if first.character = '\u0000' then
              some ([], first :: rest)
            else
              none
        | .comment pause =>
            if first.character = '\u0000' then
              some ([], first :: rest)
            else
              readPlain inBrackets least (.comment pause) rest

end BuildGraph.Yaml
