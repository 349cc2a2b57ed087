import BuildGraph.Proofs.RequiredVersion

namespace BuildGraph.Version

/-!
# Versions as text

A version with proper numbers and identifiers is read back from its text: each number ends
where its digits do, and the identifiers of a list end where neither a letter, a digit, a
hyphen nor a point goes on.
-/

/-- Identifiers that may stand in a part of a version. -/
def AreProper (part : Part) (identifiers : List String) : Prop :=
  ∀ identifier ∈ identifiers,
    checkSegment part identifier.toList = .ok () ∧
      ∀ character ∈ identifier.toList, isIdentifierCharacter character = true

instance
    (part : Part)
    (identifiers : List String) :
    Decidable (AreProper part identifiers) :=
  decidable_of_iff
    (identifiers.all fun identifier =>
      decide (checkSegment part identifier.toList = .ok ()) &&
        identifier.toList.all isIdentifierCharacter)
    (by simp [AreProper])

/-- The numbers fit in 64 bits, and the identifiers are such as their parts allow. -/
structure IsProper (version : Version) : Prop where
  major : version.major < Number.twoTo 64
  minor : version.minor < Number.twoTo 64
  patch : version.patch < Number.twoTo 64
  preRelease : AreProper .preRelease version.preRelease
  build : AreProper .build version.build

/-- A stretch of characters of a kind ends where the rest goes on with another one. -/
theorem span_append
    {isOfKind : Char → Bool}
    {stretch rest : List Char}
    (ofKind : ∀ character ∈ stretch, isOfKind character = true)
    (ends : ∀ character ∈ rest.head?, isOfKind character = false) :
    (stretch ++ rest).takeWhile isOfKind = stretch ∧
      (stretch ++ rest).dropWhile isOfKind = rest := by
  rw [List.takeWhile_append_of_pos ofKind, List.dropWhile_append_of_pos ofKind]
  cases rest with
  | nil =>
      simp
  | cons character others =>
      have other : isOfKind character = false := ends character rfl
      simp [other]

/-! ## Numbers -/

/-- A number that is not zero is written without a zero in front. -/
theorem head?_toDigits_ne_zero
    {number : Nat}
    (positive : 0 < number) :
    (Nat.toDigits 10 number).head? ≠ some '0' := by
  induction number using Nat.strongRecOn with
  | _ number inductionHypothesis =>
      rcases Nat.lt_or_ge number 10 with small | large
      · have everyDigit : ∀ digit < 10, 0 < digit → some digit.digitChar ≠ some '0' := by
          decide
        rw [Nat.toDigits_of_lt_base small, List.head?_cons]
        exact everyDigit number small positive
      · -- The digits of the tenth part stand in front of the last digit.
        rw [Nat.toDigits_of_base_le (by decide) large,
          List.head?_append_of_ne_nil _ Nat.toDigits_ne_nil]
        exact inductionHypothesis (number / 10) (by omega) (by omega)

/-- A number is read up to the end of its digits. -/
theorem readNumber_toDigits
    (part : Part)
    {number : Nat}
    (fits : number < Number.twoTo 64)
    {rest : List Char}
    (ends : ∀ character ∈ rest.head?, character.isDigit = false) :
    readNumber part (Nat.toDigits 10 number ++ rest) = .ok (number, rest) := by
  obtain ⟨digits, behind⟩ := span_append (fun _ => isDigit_of_mem_toDigits) ends
  have noLeadingZero :
      ∀ first others, Nat.toDigits 10 number = first :: others →
        ¬ (first = '0' ∧ others ≠ []) := by
    rintro first others written ⟨rfl, notAlone⟩
    rcases Nat.eq_zero_or_pos number with rfl | positive
    · rw [Nat.toDigits_zero] at written
      exact notAlone (List.cons.inj written).2.symm
    · exact head?_toDigits_ne_zero positive (by rw [written, List.head?_cons])
  obtain ⟨first, others, written⟩ :=
    List.exists_cons_of_ne_nil (Nat.toDigits_ne_nil (b := 10) (n := number))
  have value : Number.digitsValue (first :: others) = number := by
    rw [← written, digitsValue_toDigits]
  rw [readNumber, digits, behind]
  simp only [written]
  rw [if_neg (noLeadingZero first others written), value, if_neg (Nat.not_le.mpr fits)]

/-! ## Identifiers -/

/-- Identifiers with points between them are cut at the points. -/
theorem segments_intercalate
    {segment : List Char}
    {others : List (List Char)}
    (noPoint : ∀ piece ∈ segment :: others, '.' ∉ piece) :
    segments (['.'].intercalate (segment :: others)) = segment :: others := by
  induction others generalizing segment with
  | nil =>
      rw [List.intercalate_singleton]
      exact segments_of_notMem (noPoint segment List.mem_cons_self)
  | cons next rest inductionHypothesis =>
      rw [List.forall_mem_cons] at noPoint
      rw [List.intercalate_cons_cons, List.append_assoc, List.singleton_append,
        segments_append noPoint.1, inductionHypothesis noPoint.2]

theorem forall_mem_intercalate
    {segments : List (List Char)}
    {holds : Char → Prop}
    (point : holds '.')
    (inside : ∀ segment ∈ segments, ∀ character ∈ segment, holds character) :
    ∀ character ∈ ['.'].intercalate segments, holds character := by
  induction segments with
  | nil =>
      simp
  | cons segment others inductionHypothesis =>
      rw [List.forall_mem_cons] at inside
      cases others with
      | nil =>
          simpa using inside.1
      | cons next rest =>
          rw [List.intercalate_cons_cons, List.forall_mem_append, List.forall_mem_append,
            List.forall_mem_singleton]
          exact ⟨⟨inside.1, point⟩, inductionHypothesis inside.2⟩

theorem forM_eq_ok
    {check : Item → Except Refusal Unit}
    {items : List Item}
    (passed : ∀ item ∈ items, check item = .ok ()) :
    items.forM check = .ok () := by
  induction items with
  | nil =>
      rfl
  | cons item rest inductionHypothesis =>
      rw [List.forall_mem_cons] at passed
      show (check item >>= fun _ => rest.forM check) = .ok ()
      exact bind_eq_ok_iff.mpr ⟨passed.1, inductionHypothesis passed.2⟩

/-- The text of an identifier list ends here. -/
def EndsIdentifiers (rest : List Char) : Prop :=
  ∀ character ∈ rest.head?, isIdentifierCharacter character = false ∧ character ≠ '.'

/-- Proper identifiers are read up to the end of their list. -/
theorem readIdentifiers_intercalate
    {part : Part}
    {identifiers : List String}
    (proper : AreProper part identifiers)
    (notEmpty : identifiers ≠ [])
    {rest : List Char}
    (ends : EndsIdentifiers rest) :
    readIdentifiers part ((".".intercalate identifiers).toList ++ rest) =
      .ok (identifiers, rest) := by
  let belongs := fun character => isIdentifierCharacter character || character = '.'
  have text :
      (".".intercalate identifiers).toList =
        ['.'].intercalate (identifiers.map String.toList) :=
    String.toList_intercalate
  have inside :
      ∀ character ∈ (".".intercalate identifiers).toList, belongs character = true := by
    rw [text]
    refine forall_mem_intercalate (by decide) ?_
    rw [List.forall_mem_map]
    intro identifier member character inIdentifier
    simp [belongs, (proper identifier member).2 character inIdentifier]
  have outside : ∀ character ∈ rest.head?, belongs character = false := by
    intro character isHead
    simp [belongs, ends character isHead]
  obtain ⟨taken, left⟩ := span_append inside outside
  have noPoint : ∀ segment ∈ identifiers.map String.toList, '.' ∉ segment := by
    rw [List.forall_mem_map]
    intro identifier member hasPoint
    exact absurd ((proper identifier member).2 '.' hasPoint) (by decide)
  have found : segments (".".intercalate identifiers).toList = identifiers.map String.toList := by
    rw [text]
    obtain ⟨first, others, rfl⟩ := List.exists_cons_of_ne_nil notEmpty
    exact segments_intercalate noPoint
  have checked : (identifiers.map String.toList).forM (checkSegment part) = .ok () := by
    refine forM_eq_ok ?_
    rw [List.forall_mem_map]
    exact fun identifier member => (proper identifier member).1
  have names : (identifiers.map String.toList).map String.ofList = identifiers := by
    simp [Function.comp_def]
  simp only [belongs] at taken left
  simp only [readIdentifiers, taken, left, found, checked, names]
  rfl

/-- Identifiers are read behind their sign; where there are none there is no sign either. -/
theorem readSigned_identifiersText
    {sign : Char}
    {part : Part}
    {identifiers : List String}
    (proper : AreProper part identifiers)
    {rest : List Char}
    (ends : EndsIdentifiers rest)
    (noSign : rest.head? ≠ some sign) :
    readSigned sign part ((identifiersText (String.singleton sign) identifiers).toList ++ rest) =
      .ok (identifiers, rest) := by
  cases identifiers with
  | nil =>
      rw [identifiersText]
      cases rest with
      | nil =>
          rfl
      | cons character others =>
          have other : character ≠ sign := fun same => noSign (congrArg some same)
          simp [readSigned, other]
  | cons first others =>
      have read := readIdentifiers_intercalate proper (List.cons_ne_nil first others) ends
      rw [identifiersText, String.toList_append, String.toList_singleton, List.append_assoc,
        List.singleton_append, readSigned, if_pos rfl, read]
      exact fun same => nomatch same

/-- A list of identifiers begins with its sign, and what follows it otherwise. -/
theorem eq_or_mem_head?_identifiersText
    {sign : Char}
    {identifiers : List String}
    {rest : List Char}
    {character : Char}
    (isHead :
      character ∈
        ((identifiersText (String.singleton sign) identifiers).toList ++ rest).head?) :
    character = sign ∨ character ∈ rest.head? := by
  cases identifiers with
  | nil =>
      exact .inr (by simpa [identifiersText] using isHead)
  | cons first others =>
      rw [identifiersText, String.toList_append, String.toList_singleton, List.append_assoc,
        List.singleton_append, List.head?_cons, Option.mem_some_iff] at isHead
      · exact .inl isHead.symm
      · exact fun same => nomatch same

/-- A proper version is read back from its text. -/
theorem read_text
    {version : Version}
    (proper : version.IsProper) :
    read version.text = .ok version := by
  let build := (identifiersText (String.singleton '+') version.build).toList
  let preRelease := (identifiersText (String.singleton '-') version.preRelease).toList
  have text :
      version.text.toList =
        Nat.toDigits 10 version.major ++ '.' ::
          (Nat.toDigits 10 version.minor ++ '.' ::
            (Nat.toDigits 10 version.patch ++ (preRelease ++ (build ++ [])))) := by
    simp [Version.text, numbers, preRelease, build]
  have notEmpty : version.text ≠ "" := by
    intro isEmpty
    rw [isEmpty] at text
    simp at text
  have startOfBuild : ∀ character ∈ (build ++ []).head?, character = '+' := by
    intro character isHead
    simpa using eq_or_mem_head?_identifiersText isHead
  have startOfPreRelease :
      ∀ character ∈ (preRelease ++ (build ++ [])).head?, character = '-' ∨ character = '+' := by
    intro character isHead
    exact (eq_or_mem_head?_identifiersText isHead).imp_right (startOfBuild character)
  have number
      {part : Part}
      {value : Nat}
      (fits : value < Number.twoTo 64)
      (rest : List Char) :
      readNumber part (Nat.toDigits 10 value ++ '.' :: rest) = .ok (value, '.' :: rest) :=
    readNumber_toDigits part fits (by simp)
  have point (part : Part) (rest : List Char) : readPoint part ('.' :: rest) = .ok rest :=
    by rw [readPoint, if_pos rfl]
  have patch :
      readNumber .patch
          (Nat.toDigits 10 version.patch ++ (preRelease ++ (build ++ []))) =
        .ok (version.patch, preRelease ++ (build ++ [])) := by
    refine readNumber_toDigits .patch proper.patch ?_
    intro character isHead
    rcases startOfPreRelease character isHead with rfl | rfl <;> decide
  have afterPatch :
      readSigned '-' .preRelease (preRelease ++ (build ++ [])) =
        .ok (version.preRelease, build ++ []) := by
    refine readSigned_identifiersText proper.preRelease ?_ ?_
    · intro character isHead
      rw [startOfBuild character isHead]
      decide
    · intro isHead
      exact absurd (startOfBuild '-' isHead) (by decide)
  have afterPreRelease :
      readSigned '+' .build (build ++ []) = .ok (version.build, []) :=
    readSigned_identifiersText proper.build (by simp [EndsIdentifiers]) (by simp)
  simp only [read, if_neg notEmpty, text, number proper.major, number proper.minor, patch,
    point, afterPatch, afterPreRelease, bind, Except.bind]
  rfl

end BuildGraph.Version
