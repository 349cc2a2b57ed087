import BuildGraph.Document
import BuildGraph.Number.Digits
import BuildGraph.Text.Base64
import BuildGraph.Text.Blank
import BuildGraph.Yaml.Node

namespace BuildGraph.Yaml

/-!
# What scalars stand for

A quoted text stands for itself.  A plain one may stand for a truth value, an integer or
a floating-point number.  Infinite numbers and those that are no numbers are kept as
text.  Of the tags only those count that say that there is nothing or that a text is
written in base 64; a scalar whose tag tells another kind of value is refused.
-/

/-- A text without the blank characters around it. -/
def trimmed (text : List Char) : List Char :=
  ((text.dropWhile Text.isBlank).reverse.dropWhile Text.isBlank).reverse

/-- Words for truth values, in lower case. -/
def truthWords : List (String × Bool) :=
  [("true", true), ("yes", true), ("y", true), ("on", true),
    ("false", false), ("no", false), ("n", false), ("off", false)]

/-- The truth value that a word stands for. -/
def readTruth? (text : List Char) : Option Bool :=
  truthWords.lookup (String.ofList (text.map Char.toLower))

/-- A text without its sign, and whether it is a minus sign. -/
def splitSign : List Char → Bool × List Char
  | '-' :: rest => (true, rest)
  | '+' :: rest => (false, rest)
  | text => (false, text)

/-- The base of a number that is written without a sign, and its digits. -/
def splitBase : List Char → Nat × List Char
  | '0' :: 'x' :: rest | '0' :: 'X' :: rest => (16, rest)
  | '0' :: 'o' :: rest | '0' :: 'O' :: rest => (8, rest)
  | '0' :: 'b' :: rest | '0' :: 'B' :: rest => (2, rest)
  | text => (10, text)

/-- The integer of at most 64 bits that a text stands for. -/
def readInteger? (text : List Char) : Option Int := do
  let (isNegative, unsigned) := splitSign text
  let (base, written) := splitBase unsigned
  let digits := written.filter (· ≠ '_')
  if digits.isEmpty then
    failure
  let size ← Number.digitsValueIn? base digits
  if isNegative then
    if size ≤ Number.twoTo 63 then some (-(size : Int)) else none
  else
    if size < Number.twoTo 64 then some size else none

/-- A floating-point number in the wider sense. -/
inductive Decimal where
  | finite (number : Number.Binary64)
  | infinite (isNegative : Bool)
  | undefined

/-- Words for what is not a finite number, in lower case and without a sign. -/
def specialWords : List (String × (Bool → Decimal)) :=
  [(".inf", .infinite), ("inf", .infinite), ("infinity", .infinite),
    (".nan", fun _ => .undefined), ("nan", fun _ => .undefined)]

/-- The exponent at the end of a number, which may be left out. -/
def readExponent? : List Char → Option Int
  | [] => some 0
  | mark :: rest =>
      if mark = 'e' ∨ mark = 'E' then
        let (isNegative, digits) := splitSign rest
        if digits.isEmpty ∨ ¬ digits.all Char.isDigit then
          none
        else if isNegative then
          some (-(Number.digitsValue digits : Int))
        else
          some (Number.digitsValue digits)
      else
        none

/-- The floating-point number that a text without a sign stands for. -/
def readUnsignedDecimal? (isNegative : Bool) (text : List Char) : Option Decimal := do
  let integral := text.takeWhile Char.isDigit
  let (fraction, rest) :=
    match text.dropWhile Char.isDigit with
    | '.' :: behind => (behind.takeWhile Char.isDigit, behind.dropWhile Char.isDigit)
    | rest => ([], rest)
  if (integral ++ fraction).isEmpty then
    failure
  let exponent ← readExponent? rest
  match Number.Binary64.ofDecimal isNegative
      (Number.digitsValue (integral ++ fraction)) (exponent - fraction.length) with
  | some number => return .finite number
  | none => return .infinite isNegative

/-- The floating-point number that a text stands for. -/
def readDecimal? (text : List Char) : Option Decimal :=
  let (isNegative, unsigned) := splitSign text
  match specialWords.lookup (String.ofList (unsigned.map Char.toLower)) with
  | some decimal => some (decimal isNegative)
  | none => readUnsignedDecimal? isNegative unsigned

/-- A floating-point number as a document. -/
def Decimal.document : Decimal → Document
  | .finite number => .decimal number
  | .infinite true => .text "-.inf"
  | .infinite false => .text ".inf"
  | .undefined => .text ".nan"

/-- What a plain text stands for. -/
def plainDocument (text : String) : Document :=
  let written := trimmed text.toList
  match readTruth? written with
  | some truth => .boolean truth
  | none =>
      match readInteger? written with
      | some value => .integer value
      | none =>
          match readDecimal? written with
          | some decimal => decimal.document
          | none => .text text

/-- The text that a scalar stands for, if it is one, with its tag in mind. -/
def Scalar.text? (scalar : Scalar) : Option String :=
  match scalar.tag with
  | .null | .typed => none
  | .binary => Text.decodeBase64? scalar.text
  | .none | .text | .bare | .unknown => some scalar.text

/-- What a scalar stands for. -/
def Scalar.document (scalar : Scalar) : Option Document :=
  match scalar.tag with
  | .null => some .null
  | .typed | .binary => scalar.text?.map .text
  | .none | .text | .bare | .unknown =>
      some (if scalar.isPlain then plainDocument scalar.text else .text scalar.text)

/-- Whether keys are written differently, in their texts or in what their tags say. -/
def areDistinct : List Scalar → Bool
  | [] => true
  | first :: rest =>
      !rest.any (fun key => key.text = first.text && key.tag = first.tag) &&
        areDistinct rest

/-- Put a value in for a name, at the place where the name stands if it does. -/
def putEntry (name : String) (value : Document) :
    List (String × Document) → List (String × Document)
  | [] => [(name, value)]
  | (first, standing) :: rest =>
      if first = name then
        (name, value) :: rest
      else
        (first, standing) :: putEntry name value rest

/-- A mapping with some entries, of which the last one counts for a name. -/
def mappingOf (entries : List (String × Document)) : Document :=
  .mapping ((entries.foldl (fun others entry => putEntry entry.1 entry.2 others) []).map
    fun (name, value) => (.name name, value))

mutual

/-- The document that a node describes, if its tags allow one and no key occurs twice. -/
def Node.document : Node → Option Document
  | .scalar scalar => scalar.document
  | .sequence items => (documents items).map .sequence
  | .mapping entries =>
      if areDistinct (entries.map Prod.fst) then
        (entryDocuments entries).map mappingOf
      else
        none

/-- The documents that some nodes describe. -/
def documents : List Node → Option (List Document)
  | [] => some []
  | node :: rest => do
      return (← node.document) :: (← documents rest)

/-- The names and the documents that the entries of a mapping describe. -/
def entryDocuments : List (Scalar × Node) → Option (List (String × Document))
  | [] => some []
  | (key, value) :: rest => do
      return (← key.text?, ← value.document) :: (← entryDocuments rest)

end

end BuildGraph.Yaml
