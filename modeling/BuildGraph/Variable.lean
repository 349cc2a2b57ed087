namespace BuildGraph

/-!
# Variables

A variable is known by its normalised name: every character other than an ASCII
letter, a digit or an underscore is replaced by an underscore, so different
spellings can name the same variable.
-/

/-- Characters that a variable name or a rule name may contain. -/
def isNameCharacter (character : Char) : Bool :=
  character.isAlphanum || character = '_'

/-- A name character itself, and an underscore for any other. -/
def normaliseCharacter (character : Char) : Char :=
  if isNameCharacter character then character else '_'

/-- Normalisation yields name characters only. -/
theorem isNameCharacter_normaliseCharacter
    (character : Char) :
    isNameCharacter (normaliseCharacter character) = true := by
  unfold normaliseCharacter
  split
  · assumption
  · decide

/-- A variable of a build file, identified by its normalised name. -/
structure Variable where
  name : String
  normalised : name.toList.all isNameCharacter = true
  deriving Repr, DecidableEq

namespace Variable

/-- The variable that a spelling of its name stands for. -/
def ofString (spelling : String) : Variable where
  name := String.ofList (spelling.toList.map normaliseCharacter)
  normalised := by
    simp [isNameCharacter_normaliseCharacter]

/-- The reference by which a build file uses the variable. -/
def reference (var : Variable) : String :=
  "$\x7b" ++ var.name ++ "\x7d"

/-- Two variables with the same name are the same. -/
theorem eq_of_name
    {first second : Variable}
    (sameName : first.name = second.name) :
    first = second := by
  cases first
  cases second
  cases sameName
  rfl

/-- Normalising a normalised name changes nothing. -/
@[simp] theorem ofString_name
    (var : Variable) :
    ofString var.name = var := by
  apply eq_of_name
  have unchanged :
      var.name.toList.map normaliseCharacter = var.name.toList := by
    rw [List.map_congr_left (g := id)]
    · simp
    · intro character member
      simp [normaliseCharacter,
        List.all_eq_true.mp var.normalised character member]
  simp [ofString, unchanged]

end Variable

end BuildGraph
