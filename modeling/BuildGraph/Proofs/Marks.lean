import BuildGraph.Ninja.Escape
import BuildGraph.Proofs.Meaning

namespace BuildGraph.Ninja

/-!
# Reading what was escaped

The backend reads a line from left to right.  A dollar sign in front of a dollar sign, a
space or a colon makes that character ordinary; in front of an opening brace it begins a
reference, which ends at the closing brace.  Nothing else may follow a dollar sign.
-/

/-- A sign of a line as the backend reads it. -/
inductive Mark where
  /-- A character without a dollar sign in front of it. -/
  | bare (character : Char)
  /-- A character that a dollar sign made ordinary. -/
  | escaped (character : Char)
  /-- A reference to the variable of the given name. -/
  | reference (name : String)
  deriving Repr, DecidableEq

/-- What a mark stands for. -/
def Mark.symbol : Mark → Symbol
  | .bare character | .escaped character => .plain character
  | .reference name => .reference name

/-- How a symbol is written in a position. -/
def markOf (position : Position) : Symbol → Mark
  | .plain character =>
      if isSpecial position character then .escaped character
      else .bare character
  | .reference name => .reference name

/-- Characters that a dollar sign makes ordinary. -/
def isEscapable (character : Char) : Bool :=
  character = '$' || character = ' ' || character = ':'

/-- Where in a reference or outside of one the reader stands. -/
inductive MarkMode where
  | text
  | afterDollar
  | inName (read : List Char)
  deriving Repr, DecidableEq

/-- The marks that remain to be read in a mode, unless a dollar sign is misplaced. -/
def readMarksIn : MarkMode → List Char → Option (List Mark)
  | .text, [] => some []
  | .text, character :: rest =>
      if character = '$' then readMarksIn .afterDollar rest
      else (readMarksIn .text rest).map (.bare character :: ·)
  | .afterDollar, [] => none
  | .afterDollar, character :: rest =>
      if character = '\x7b' then readMarksIn (.inName []) rest
      else if isEscapable character then
        (readMarksIn .text rest).map (.escaped character :: ·)
      else none
  | .inName _, [] => none
  | .inName read, character :: rest =>
      if character = '\x7d' then
        (readMarksIn .text rest).map (.reference (String.ofList read) :: ·)
      else readMarksIn (.inName (read ++ [character])) rest

/-- The marks of a text. -/
def readMarks (text : List Char) : Option (List Mark) :=
  readMarksIn .text text

/-- A text with every reference replaced by the value of its variable. -/
def expand
    (values : String → List Char)
    (text : List Char) :
    Option (List Char) :=
  (readMarks text).map fun marks =>
    (marks.map Mark.symbol).flatMap (Symbol.value values)

@[simp] theorem symbol_markOf
    (position : Position)
    (symbol : Symbol) :
    (markOf position symbol).symbol = symbol := by
  cases symbol with
  | plain character =>
      simp only [markOf]
      split <;> rfl
  | reference name =>
      rfl

/-- A mark in front of a complete text is read in front of all that follows. -/
theorem map_cons_append
    {mark : Mark}
    {marks : List Mark}
    {read later : Option (List Mark)}
    {following : Option (List Mark)}
    (complete : read.map (mark :: ·) = some marks)
    (continues :
      ∀ others, read = some others → later = following.map (others ++ ·)) :
    later.map (mark :: ·) = following.map (marks ++ ·) := by
  obtain ⟨others, readOthers, rfl⟩ := Option.map_eq_some_iff.mp complete
  rw [continues others readOthers, Option.map_map]
  rfl

/-- What follows a complete text is read on its own. -/
theorem readMarksIn_append
    {mode : MarkMode}
    {first : List Char}
    {marks : List Mark}
    (complete : readMarksIn mode first = some marks)
    (second : List Char) :
    readMarksIn mode (first ++ second) =
      (readMarks second).map (marks ++ ·) := by
  -- In every mode but the first one an empty text is incomplete, so nothing is left open
  -- where the second text begins.
  induction first generalizing mode marks with
  | nil =>
      cases mode with
      | text =>
          obtain rfl : [] = marks := by simpa [readMarksIn] using complete
          simp [readMarks]
      | afterDollar | inName =>
          simp [readMarksIn] at complete
  | cons character rest inductionHypothesis =>
      cases mode with
      | text =>
          by_cases dollar : character = '$'
          · simp only [readMarksIn, List.cons_append, dollar, ↓reduceIte]
              at complete ⊢
            exact inductionHypothesis complete
          · simp only [readMarksIn, List.cons_append, dollar, ↓reduceIte]
              at complete ⊢
            exact map_cons_append complete fun _ => inductionHypothesis
      | afterDollar =>
          by_cases brace : character = '\x7b'
          · simp only [readMarksIn, List.cons_append, brace, ↓reduceIte]
              at complete ⊢
            exact inductionHypothesis complete
          · by_cases escapable : isEscapable character = true
            · simp only [readMarksIn, List.cons_append, brace, escapable,
                ↓reduceIte] at complete ⊢
              exact map_cons_append complete fun _ => inductionHypothesis
            · simp [readMarksIn, brace, escapable] at complete
      | inName read =>
          by_cases brace : character = '\x7d'
          · simp only [readMarksIn, List.cons_append, brace, ↓reduceIte]
              at complete ⊢
            exact map_cons_append complete fun _ => inductionHypothesis
          · simp only [readMarksIn, List.cons_append, brace, ↓reduceIte]
              at complete ⊢
            exact inductionHypothesis complete

/-- The marks of a text that is complete come before the marks of what follows it. -/
theorem readMarks_append
    {first : List Char}
    {marks : List Mark}
    (complete : readMarks first = some marks)
    (second : List Char) :
    readMarks (first ++ second) = (readMarks second).map (marks ++ ·) :=
  readMarksIn_append complete second

theorem readMarks_append_of_eq
    {first second : List Char}
    {marks others : List Mark}
    (readFirst : readMarks first = some marks)
    (readSecond : readMarks second = some others) :
    readMarks (first ++ second) = some (marks ++ others) := by
  rw [readMarks_append readFirst, readSecond, Option.map_some]

theorem isSpecial_dollar
    (position : Position) :
    isSpecial position '$' = true := by
  cases position <;> decide

theorem isEscapable_of_isSpecial
    {position : Position}
    {character : Char}
    (special : isSpecial position character = true) :
    isEscapable character = true := by
  cases position <;> simp [isSpecial, isEscapable] at special ⊢ <;> grind

/-- Escaped text is read as the characters that it was escaped from. -/
theorem readMarks_escapeText
    (position : Position)
    (text : List Char) :
    readMarks (escapeText position text) =
      some ((Symbol.ofText text).map (markOf position)) := by
  induction text with
  | nil =>
      rfl
  | cons character rest inductionHypothesis =>
      have single :
          readMarks
              (if isSpecial position character then ['$', character]
                else [character]) =
            some [markOf position (.plain character)] := by
        by_cases special : isSpecial position character = true
        · have escapable := isEscapable_of_isSpecial special
          have notBrace : character ≠ '\x7b' := by
            rintro rfl
            simp [isEscapable] at escapable
          simp [readMarks, readMarksIn, markOf, special, escapable, notBrace]
        · have notDollar : character ≠ '$' := by
            rintro rfl
            exact special (isSpecial_dollar position)
          simp [readMarks, readMarksIn, markOf, special, notDollar]
      exact readMarks_append_of_eq single inductionHypothesis

/-- Between the braces of a reference everything up to the closing one is its name. -/
theorem readMarksIn_inName
    {name : List Char}
    (noBrace : '\x7d' ∉ name)
    (read : List Char) :
    readMarksIn (.inName read) (name ++ ['\x7d']) =
      some [.reference (String.ofList (read ++ name))] := by
  induction name generalizing read with
  | nil =>
      simp [readMarksIn]
  | cons character rest inductionHypothesis =>
      rw [List.mem_cons, not_or] at noBrace
      have notBrace : character ≠ '\x7d' := Ne.symm noBrace.1
      simp [readMarksIn, notBrace, inductionHypothesis noBrace.2]

/-- The reference by which a variable is used is read as that reference. -/
theorem readMarks_reference
    (var : Variable) :
    readMarks var.reference.toList = some [.reference var.name] := by
  have noBrace : '\x7d' ∉ var.name.toList := by
    intro member
    have nameCharacter := List.all_eq_true.mp var.normalised _ member
    revert nameCharacter
    decide
  have shape :
      var.reference.toList =
        '$' :: '\x7b' :: (var.name.toList ++ ['\x7d']) := by
    simp [Variable.reference]
  rw [shape]
  simp [readMarks, readMarksIn, readMarksIn_inName noBrace]

/-- Text without a dollar sign is read as it stands. -/
theorem readMarks_of_dollarless
    {text : List Char}
    (dollarless : '$' ∉ text) :
    readMarks text = some (text.map .bare) := by
  induction text with
  | nil =>
      rfl
  | cons character rest inductionHypothesis =>
      rw [List.mem_cons, not_or] at dollarless
      have notDollar : character ≠ '$' := Ne.symm dollarless.1
      have readRest := inductionHypothesis dollarless.2
      simp only [readMarks] at readRest ⊢
      simp [readMarksIn, notDollar, readRest]

/-- Only escapable characters are read behind a dollar sign. -/
theorem isEscapable_of_mem_readMarksIn
    {mode : MarkMode}
    {text : List Char}
    {marks : List Mark}
    (read : readMarksIn mode text = some marks)
    {character : Char}
    (member : .escaped character ∈ marks) :
    isEscapable character = true := by
  induction text generalizing mode marks with
  | nil =>
      cases mode with
      | text =>
          obtain rfl : [] = marks := by simpa [readMarksIn] using read
          simp at member
      | afterDollar | inName =>
          simp [readMarksIn] at read
  | cons first rest inductionHypothesis =>
      cases mode with
      | text =>
          rw [readMarksIn] at read
          split at read
          · exact inductionHypothesis read member
          · obtain ⟨others, readOthers, rfl⟩ := Option.map_eq_some_iff.mp read
            exact inductionHypothesis readOthers (by simpa using member)
      | afterDollar =>
          rw [readMarksIn] at read
          split at read
          · exact inductionHypothesis read member
          · by_cases escapable : isEscapable first = true
            · rw [if_pos escapable] at read
              obtain ⟨others, readOthers, rfl⟩ := Option.map_eq_some_iff.mp read
              rcases List.mem_cons.mp member with same | inOthers
              · obtain rfl : character = first := by simpa using same
                exact escapable
              · exact inductionHypothesis readOthers inOthers
            · rw [if_neg escapable] at read
              simp at read
      | inName name =>
          rw [readMarksIn] at read
          split at read
          · obtain ⟨others, readOthers, rfl⟩ := Option.map_eq_some_iff.mp read
            exact inductionHypothesis readOthers (by simpa using member)
          · exact inductionHypothesis read member

theorem expand_of_readMarks
    {text : List Char}
    {marks : List Mark}
    (read : readMarks text = some marks)
    (values : String → List Char) :
    expand values text =
      some ((marks.map Mark.symbol).flatMap (Symbol.value values)) := by
  rw [expand, read, Option.map_some]

theorem expand_append
    {values : String → List Char}
    {first second firstValue secondValue : List Char}
    (expandsFirst : expand values first = some firstValue)
    (expandsSecond : expand values second = some secondValue) :
    expand values (first ++ second) = some (firstValue ++ secondValue) := by
  obtain ⟨marks, readFirst, rfl⟩ := Option.map_eq_some_iff.mp expandsFirst
  obtain ⟨others, readSecond, rfl⟩ := Option.map_eq_some_iff.mp expandsSecond
  rw [expand_of_readMarks (readMarks_append_of_eq readFirst readSecond)]
  simp

theorem expand_flatMap
    {values : String → List Char}
    {text value : Item → List Char}
    {items : List Item}
    (expands : ∀ item ∈ items, expand values (text item) = some (value item)) :
    expand values (items.flatMap text) = some (items.flatMap value) := by
  induction items with
  | nil =>
      rfl
  | cons item rest inductionHypothesis =>
      rw [List.forall_mem_cons] at expands
      exact expand_append expands.1 (inductionHypothesis expands.2)

/-- Expansion undoes escaping. -/
theorem expand_escapeText
    (values : String → List Char)
    (position : Position)
    (text : List Char) :
    expand values (escapeText position text) = some text := by
  rw [expand_of_readMarks (readMarks_escapeText position text)]
  simp [Function.comp_def]

theorem expand_reference
    (values : String → List Char)
    (var : Variable) :
    expand values var.reference.toList = some (values var.name) := by
  rw [expand_of_readMarks (readMarks_reference var)]
  simp [Mark.symbol, Symbol.value]

theorem expand_of_dollarless
    {text : List Char}
    (dollarless : '$' ∉ text)
    (values : String → List Char) :
    expand values text = some text := by
  rw [expand_of_readMarks (readMarks_of_dollarless dollarless)]
  simp [Mark.symbol, Symbol.value, Function.comp_def, List.flatMap_map]

end BuildGraph.Ninja
