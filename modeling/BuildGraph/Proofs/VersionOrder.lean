import BuildGraph.Version.Basic
import Mathlib.Data.List.Induction

namespace BuildGraph

/-!
# The order of versions

Versions are totally ordered, and two versions that compare as equal are the same.  Each
comparison is a lexicographic one of keys, so its laws are those of the keys' orders; that
nothing is lost by the keys comes down to digits of equal value and length being the same.
-/

namespace Number

theorem digitsValue_concat
    (digits : List Char)
    (digit : Char) :
    digitsValue (digits ++ [digit]) =
      digitsValue digits * 10 + (digit.toNat - '0'.toNat) := by
  simp [digitsValue]

/-- Digits of the same value and length are the same. -/
theorem eq_of_digitsValue_eq
    {first second : List Char}
    (firstDigits : first.all Char.isDigit = true)
    (secondDigits : second.all Char.isDigit = true)
    (sameLength : first.length = second.length)
    (sameValue : digitsValue first = digitsValue second) :
    first = second := by
  induction first using List.reverseRecOn generalizing second with
  | nil =>
      exact (List.eq_nil_of_length_eq_zero sameLength.symm).symm
  | append_singleton firstInit firstLast inductionHypothesis =>
      obtain rfl | ⟨secondInit, secondLast, rfl⟩ := second.eq_nil_or_concat
      · simp at sameLength
      simp only [List.concat_eq_append, List.all_append, List.all_cons, List.all_nil,
        Bool.and_true, Bool.and_eq_true, List.length_append, List.length_singleton,
        Nat.add_right_cancel_iff, digitsValue_concat] at *
      have zero : '0'.toNat = 48 := rfl
      have nine : '9'.toNat = 57 := rfl
      have firstBounds := Char.isDigit_iff_toNat.mp firstDigits.2
      have secondBounds := Char.isDigit_iff_toNat.mp secondDigits.2
      -- The last digits are the remainders of the values by ten.
      have sameLast : firstLast.toNat = secondLast.toNat := by omega
      have sameInit : firstInit = secondInit :=
        inductionHypothesis firstDigits.1 secondDigits.1 sameLength (by omega)
      rw [sameInit, Char.toNat_inj.mp sameLast]

end Number

namespace Version

/-! ## Identifiers -/

/-- Whether an identifier is no number. -/
def isWord (identifier : String) : Bool :=
  (identifierNumber? identifier).isNone

/-- What an identifier is compared by if it is a number. -/
def numberKey (identifier : String) : Nat × Nat :=
  match identifierNumber? identifier with
  | some number => (number, identifier.length)
  | none => (0, 0)

/-- What an identifier is compared by if it is no number. -/
def wordKey (identifier : String) : String :=
  match identifierNumber? identifier with
  | some _ => ""
  | none => identifier

/-- Identifiers are compared by their keys, one after the other. -/
theorem compareIdentifiers_eq_compareLex :
    compareIdentifiers =
      compareLex (compareOn isWord)
        (compareLex (compareOn fun identifier => (numberKey identifier).1)
          (compareLex (compareOn fun identifier => (numberKey identifier).2)
            (compareOn wordKey))) := by
  funext first second
  simp only [compareIdentifiers, compareLex, compareOn, isWord, numberKey, wordKey]
  cases identifierNumber? first <;> cases identifierNumber? second
  · simp
  · rfl
  · rfl
  · simp

instance : Std.TransCmp compareIdentifiers := by
  rw [compareIdentifiers_eq_compareLex]
  infer_instance

theorem eq_of_compareIdentifiers_eq
    {first second : String}
    (same : compareIdentifiers first second = .eq) :
    first = second := by
  unfold compareIdentifiers identifierNumber? at same
  by_cases firstDigits : first.toList.all Char.isDigit = true <;>
    by_cases secondDigits : second.toList.all Char.isDigit = true
  · rw [if_pos firstDigits, if_pos secondDigits] at same
    obtain ⟨sameValue, sameLength⟩ := Ordering.then_eq_eq.mp same
    rw [Std.LawfulEqOrd.compare_eq_iff_eq] at sameValue sameLength
    exact String.toList_inj.mp
      (Number.eq_of_digitsValue_eq firstDigits secondDigits sameLength sameValue)
  · rw [if_pos firstDigits, if_neg secondDigits] at same
    cases same
  · rw [if_neg firstDigits, if_pos secondDigits] at same
    cases same
  · rw [if_neg firstDigits, if_neg secondDigits] at same
    exact Std.LawfulEqOrd.eq_of_compare same

instance : Std.LawfulEqCmp compareIdentifiers where
  eq_of_compare := eq_of_compareIdentifiers_eq

/-! ## Lists of identifiers -/

theorem compareIdentifierLists_eq_compareLex :
    compareIdentifierLists = List.compareLex compareIdentifiers := by
  funext first second
  induction first generalizing second with
  | nil =>
      cases second <;> rfl
  | cons identifier rest inductionHypothesis =>
      cases second with
      | nil =>
          rfl
      | cons other others =>
          rw [compareIdentifierLists, inductionHypothesis, List.compareLex_cons_cons]

instance : Std.TransCmp compareIdentifierLists := by
  rw [compareIdentifierLists_eq_compareLex]
  infer_instance

instance : Std.LawfulEqCmp compareIdentifierLists := by
  rw [compareIdentifierLists_eq_compareLex]
  infer_instance

theorem comparePreReleases_eq_compareLex :
    comparePreReleases =
      compareLex (compareOn List.isEmpty) compareIdentifierLists := by
  funext first second
  cases first <;> cases second <;> rfl

instance : Std.TransCmp comparePreReleases := by
  rw [comparePreReleases_eq_compareLex]
  infer_instance

instance : Std.LawfulEqCmp comparePreReleases where
  eq_of_compare same := by
    rw [comparePreReleases_eq_compareLex, compareLex_eq_eq] at same
    exact Std.LawfulEqCmp.eq_of_compare same.2

/-! ## Versions -/

theorem order_eq_compareLex :
    order =
      compareLex (compareOn Version.major)
        (compareLex (compareOn Version.minor)
          (compareLex (compareOn Version.patch)
            (compareLex (fun first second =>
                comparePreReleases first.preRelease second.preRelease)
              fun first second => compareIdentifierLists first.build second.build))) :=
  rfl

/-- Comparing by a key is as transitive as comparing the keys. -/
theorem transCmp_on
    {Key : Type}
    (compareKeys : Key → Key → Ordering)
    [Std.TransCmp compareKeys]
    (key : Version → Key) :
    Std.TransCmp fun first second => compareKeys (key first) (key second) where
  eq_swap := Std.OrientedCmp.eq_swap
  isLE_trans := Std.TransCmp.isLE_trans

instance : Std.TransOrd Version := by
  have preReleases := transCmp_on comparePreReleases preRelease
  have builds := transCmp_on compareIdentifierLists build
  change Std.TransCmp order
  rw [order_eq_compareLex]
  infer_instance

instance : Std.LawfulEqOrd Version where
  eq_of_compare {first second} same := by
    change order first second = .eq at same
    simp only [order, Ordering.then_eq_eq, Std.LawfulEqCmp.compare_eq_iff_eq] at same
    obtain ⟨sameMajor, sameMinor, samePatch, samePreRelease, sameBuild⟩ := same
    cases first
    cases second
    simp_all

end Version

end BuildGraph
