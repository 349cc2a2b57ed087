import BuildGraph.Yaml.Assembly

namespace BuildGraph.Yaml

/-!
# The document of a text

A text holds a single document, maybe behind some directives.  What follows the document
is only looked at until it is clear that another one follows, which is not allowed; tokens
that cannot belong to any document are passed over.
-/

/-- Directives told as what handles stand for, and the tokens behind them. -/
def readDirectives :
    (hasVersion : Bool) →
    (spaces : List (String × String)) →
    List Token →
    Option (List (String × String) × List Token)
  | hasVersion, _, .versionDirective :: rest =>
      if hasVersion then none else readDirectives true [] rest
  | hasVersion, _, .tagDirective handle space :: rest =>
      readDirectives hasVersion [(handle, space)] rest
  | _, spaces, tokens => some (spaces, tokens)

/-- Whether a token is a directive. -/
def Token.isDirective : Token → Bool
  | .versionDirective | .tagDirective _ _ => true
  | _ => false

/-- Whether a token stands outside documents. -/
def Token.isOutside (token : Token) : Bool :=
  token.isDirective || token = .documentStart || token = .documentEnd || token = .finish

/-- Tokens without the ends of documents in front of them. -/
def withoutEnds (tokens : List Token) : List Token :=
  tokens.dropWhile (· = .documentEnd)

/-- The steps that nodes can need at most, whatever the tokens are. -/
def stepLimit (tokens : List Token) : Nat := 4 * tokens.length + 8

/-- Make a node, and check that it does not refer to others too often. -/
def assembleRoot (spaces : List (String × String)) (tokens : List Token) :
    Option (Node × List Token) := do
  let (node, assembly) ←
    (assembleNode (stepLimit tokens) .byIndentation 0).run { tokens, spaces }
  let names := assembly.names.length
  if nameLimit < names ∨ nameLimit < assembly.references ∨
      freeReferences ≤ assembly.references ∧
        referencesPerName * names < assembly.references then
    failure
  else
    return (node, assembly.tokens)

/-- Go on to where a node begins. -/
def announceNode : Assemble Unit := do
  if let .reference _ := ← Assemble.next then
    failure
  let properties ← Assemble.takeProperties
  match ← Assemble.next with
  | .text .unindented _ => failure
  | .text _ _ | .openSequence | .openMapping | .sequenceStart | .mappingStart => pure ()
  | _ => if properties.isEmpty then failure

/-- Whether tokens begin with a node. -/
def beginsNode (spaces : List (String × String)) (tokens : List Token) : Bool :=
  (announceNode.run { tokens, spaces }).isSome

/-- Whether a document begins with its marker, maybe behind directives. -/
def beginsMarked (tokens : List Token) : Bool :=
  match readDirectives false [] tokens with
  | some (spaces, .documentStart :: body) =>
      body.head?.any Token.isOutside || beginsNode spaces body
  | _ => false

/-- Whether a document follows the end of another one, which may be a marker. -/
def hasDocument (isBehindMarker : Bool) (tokens : List Token) : Bool :=
  let tokens := withoutEnds tokens
  match tokens.head? with
  | none | some .finish => false
  | some first =>
      if first.isOutside then beginsMarked tokens
      else isBehindMarker && beginsNode [] tokens

/-- Whether a document may be followed by some tokens. -/
def mayFollow (tokens : List Token) : Bool :=
  match tokens with
  | [] | .fault :: _ => false
  | .documentEnd :: rest => !hasDocument true rest
  | first :: _ => !first.isDirective && !hasDocument false tokens

/-- A document from behind its marker on, and the tokens behind it. -/
def readMarked (spaces : List (String × String)) (body : List Token) :
    Option (Node × List Token) :=
  if body.head?.any Token.isOutside then
    some (.absent, body)
  else
    assembleRoot spaces body

/-- The only document of a text, if there is one. -/
def readRoot? (tokens : List Token) : Option (Option Node) := do
  let tokens := withoutEnds tokens
  if tokens.head? = some .finish then
    return none
  let (spaces, rest) ← readDirectives false [] tokens
  let (node, behind) ←
    match rest with
    | .documentStart :: body => readMarked spaces body
    | _ => if tokens.head?.any Token.isDirective then none else assembleRoot [] rest
  if mayFollow behind then
    return some node
  else
    failure

end BuildGraph.Yaml
