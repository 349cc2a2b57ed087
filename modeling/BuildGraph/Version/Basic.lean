import BuildGraph.Number.Digits

namespace BuildGraph

/-!
# Versions

A version has three numbers, then optional pre-release identifiers behind a hyphen and
optional build identifiers behind a plus sign.

Versions are totally ordered: first by the three numbers, then by the pre-release
identifiers, where having none comes last, and at the end by the build identifiers,
where having none comes first.
-/

/-- A version number with its identifiers. -/
structure Version where
  major : Nat
  minor : Nat
  patch : Nat
  preRelease : List String
  build : List String
  deriving Repr, DecidableEq

namespace Version

/-- A version of three numbers alone. -/
def release (major minor patch : Nat) : Version :=
  { major, minor, patch, preRelease := [], build := [] }

/-- The number that an identifier of digits stands for. -/
def identifierNumber? (identifier : String) : Option Nat :=
  if identifier.toList.all Char.isDigit then
    some (Number.digitsValue identifier.toList)
  else
    none

/--
The order of two identifiers.

Numbers come before other identifiers and compare by value, then by their length;
other identifiers compare as text.
-/
def compareIdentifiers (first second : String) : Ordering :=
  match identifierNumber? first, identifierNumber? second with
  | some firstNumber, some secondNumber =>
      (compare firstNumber secondNumber).then
        (compare first.length second.length)
  | some _, none => .lt
  | none, some _ => .gt
  | none, none => compare first second

/-- The order of two identifier lists; of two that agree the shorter comes first. -/
def compareIdentifierLists : List String → List String → Ordering
  | [], [] => .eq
  | [], _ :: _ => .lt
  | _ :: _, [] => .gt
  | first :: restOfFirst, second :: restOfSecond =>
      (compareIdentifiers first second).then
        (compareIdentifierLists restOfFirst restOfSecond)

/-- The order of two pre-release lists; having none comes last. -/
def comparePreReleases : List String → List String → Ordering
  | [], [] => .eq
  | [], _ :: _ => .gt
  | _ :: _, [] => .lt
  | first, second => compareIdentifierLists first second

/-- The order of two versions. -/
def order (first second : Version) : Ordering :=
  (compare first.major second.major).then <|
  (compare first.minor second.minor).then <|
  (compare first.patch second.patch).then <|
  (comparePreReleases first.preRelease second.preRelease).then <|
  compareIdentifierLists first.build second.build

instance : Ord Version := ⟨order⟩

/-- The three numbers with points between them. -/
def numbers (version : Version) : String :=
  toString version.major ++ "." ++ toString version.minor ++ "." ++
    toString version.patch

/-- Identifiers behind their sign, and nothing when there are none. -/
def identifiersText (sign : String) : List String → String
  | [] => ""
  | identifiers => sign ++ ".".intercalate identifiers

/-- The whole version as text. -/
def text (version : Version) : String :=
  version.numbers ++
    identifiersText "-" version.preRelease ++
    identifiersText "+" version.build

/-- The version as a build file requires it: the patch number only where it counts. -/
def requirement (version : Version) : String :=
  toString version.major ++ "." ++ toString version.minor ++
    if version.patch = 0 then "" else "." ++ toString version.patch

end Version

end BuildGraph
