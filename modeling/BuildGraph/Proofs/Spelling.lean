import BuildGraph.Shell.Split
import BuildGraph.Shell.Word

namespace BuildGraph.Shell

/-!
# How the shell reads quoted text

A text spells a word when the splitter takes it for that part of a word, wherever in the
word it stands.  Spelling is closed under concatenation, so what is quoted piece by piece
can be followed piece by piece.  Texts with a space between them are read as lists of
words one after the other.
-/

/-- Put several characters in front of the word that was being read. -/
def extend
    (word : List Char)
    (words : Option (List (List Char))) :
    Option (List (List Char)) :=
  word.foldr extendWord words

@[simp] theorem extend_nil
    (words : Option (List (List Char))) :
    extend [] words = words :=
  rfl

@[simp] theorem extend_cons
    (character : Char)
    (word : List Char)
    (words : Option (List (List Char))) :
    extend (character :: word) words =
      extendWord character (extend word words) :=
  rfl

/-- Characters in front are put there last. -/
theorem extend_append
    (first second : List Char)
    (words : Option (List (List Char))) :
    extend (first ++ second) words = extend first (extend second words) :=
  List.foldr_append

/-- An empty word becomes the word that is put in front of it. -/
theorem extend_map_nil_cons
    (word : List Char)
    (words : Option (List (List Char))) :
    extend word (words.map ([] :: ·)) = words.map (word :: ·) := by
  induction word with
  | nil =>
      rfl
  | cons character rest inductionHypothesis =>
      rw [extend_cons, inductionHypothesis]
      cases words <;> rfl

/-- A text that is taken for part of a word between single quotes. -/
def SpellsQuoted (text word : List Char) : Prop :=
  ∀ rest,
    scan .singleQuotes (text ++ rest) = extend word (scan .singleQuotes rest)

namespace SpellsQuoted

/-- Quoted pieces spell their words one after the other. -/
theorem append
    {first second firstWord secondWord : List Char}
    (spellsFirst : SpellsQuoted first firstWord)
    (spellsSecond : SpellsQuoted second secondWord) :
    SpellsQuoted (first ++ second) (firstWord ++ secondWord) := by
  intro rest
  rw [List.append_assoc, spellsFirst, spellsSecond, extend_append]

/-- Text without a single quote stands for itself between single quotes. -/
theorem of_quoteless
    {text : List Char}
    (quoteless : '\'' ∉ text) :
    SpellsQuoted text text := by
  intro rest
  induction text with
  | nil =>
      rfl
  | cons character others inductionHypothesis =>
      rw [List.mem_cons, not_or] at quoteless
      have notQuote : character ≠ '\'' := Ne.symm quoteless.1
      simp [scan, notQuote, inductionHypothesis quoteless.2]

/-- An escaped character is read back between single quotes. -/
theorem escapeCharacter
    (character : Char) :
    SpellsQuoted (Shell.escapeCharacter character) [character] := by
  unfold Shell.escapeCharacter
  split
  case isTrue isQuote =>
    subst isQuote
    intro rest
    simp [scan, isBlank]
  case isFalse notQuote =>
    exact of_quoteless (by simpa using Ne.symm notQuote)

/-- What is quoted item by item is read item by item. -/
theorem flatMap
    {items : List Item}
    {text word : Item → List Char}
    (spells : ∀ item ∈ items, SpellsQuoted (text item) (word item)) :
    SpellsQuoted (items.flatMap text) (items.flatMap word) := by
  induction items with
  | nil =>
      exact fun _ => rfl
  | cons item rest inductionHypothesis =>
      rw [List.forall_mem_cons] at spells
      exact spells.1.append (inductionHypothesis spells.2)

end SpellsQuoted

/-- A single quote is not safe. -/
theorem isSafe_singleQuote : isSafe '\'' = false := by
  decide

/-- Safe text is left as it is, since none of its characters is a single quote. -/
theorem flatMap_escapeCharacter_of_safe
    {word : List Char}
    (safe : word.all isSafe = true) :
    word.flatMap escapeCharacter = word := by
  induction word with
  | nil =>
      rfl
  | cons character rest inductionHypothesis =>
      rw [List.all_cons, Bool.and_eq_true] at safe
      have notQuote : character ≠ '\'' := by
        rintro rfl
        simp [isSafe_singleQuote] at safe
      simp [escapeCharacter, notQuote, inductionHypothesis safe.2]

/-- Safe or not, a text is escaped character by character. -/
theorem escape_eq
    (word : List Char) :
    escape word = (word.flatMap escapeCharacter, !word.all isSafe) := by
  by_cases safe : word.all isSafe = true
  · simp [escape, safe, flatMap_escapeCharacter_of_safe safe]
  · simp [escape, safe]

/-- A quoted word is empty only if there is nothing to quote. -/
theorem quote_eq_nil_iff
    {word : List Char} :
    quote word = [] ↔ word = [] := by
  show wrap (escape word).1 (escape word).2 = [] ↔ word = []
  by_cases safe : word.all isSafe = true
  · simp [escape, safe, wrap]
  · have notEmpty : word ≠ [] := by
      rintro rfl
      simp at safe
    simp [escape, safe, wrap, notEmpty]

/-- Escaped text is read back between single quotes, whether it needs them or not. -/
theorem spellsQuoted_escape
    (word : List Char) :
    SpellsQuoted (escape word).1 word := by
  have spells :
      SpellsQuoted (word.flatMap escapeCharacter)
        (word.flatMap fun character => [character]) :=
    .flatMap fun character _ => .escapeCharacter character
  rw [escape_eq]
  simpa using spells

/-- A text that is taken for part of a word, and that can begin one. -/
structure Spells (text word : List Char) : Prop where
  opens : ∀ character ∈ text.head?, isBlank character = false ∧ character ≠ '#'
  within : ∀ rest, scan .inWord (text ++ rest) = extend word (scan .inWord rest)

namespace Spells

/-- No text spells no characters. -/
theorem nil : Spells [] [] where
  opens := by simp
  within := fun _ => rfl

/-- Pieces spell their parts of a word one after the other. -/
theorem append
    {first second firstWord secondWord : List Char}
    (spellsFirst : Spells first firstWord)
    (spellsSecond : Spells second secondWord) :
    Spells (first ++ second) (firstWord ++ secondWord) where
  opens := by
    cases first with
    | nil => exact spellsSecond.opens
    | cons character rest => exact spellsFirst.opens
  within := by
    intro rest
    rw [List.append_assoc, spellsFirst.within, spellsSecond.within, extend_append]

/-- A character that is neither blank nor special stands for itself. -/
theorem character
    {character : Char}
    (notBlank : isBlank character = false)
    (notSpecial : character ∉ ['#', '\'', '"', '\\']) :
    Spells [character] [character] where
  opens := by
    simp only [List.mem_cons, not_or] at notSpecial
    simp [notBlank, notSpecial]
  within := by
    intro rest
    simp only [List.mem_cons, not_or] at notSpecial
    simp [scan, notBlank, notSpecial]

/-- Safe text stands for itself. -/
theorem of_safe
    {word : List Char}
    (safe : word.all isSafe = true) :
    Spells word word := by
  induction word with
  | nil =>
      exact .nil
  | cons first rest inductionHypothesis =>
      rw [List.all_cons, Bool.and_eq_true] at safe
      have unlike : ∀ other : Char, isSafe other = false → first ≠ other := by
        rintro other unsafeOther rfl
        simp [unsafeOther] at safe
      have notBlank : isBlank first = false := by
        simp [isBlank, unlike ' ' (by decide), unlike '\t' (by decide),
          unlike '\n' (by decide)]
      have notSpecial : first ∉ ['#', '\'', '"', '\\'] := by
        simp [unlike '#' (by decide), unlike '\'' (by decide),
          unlike '"' (by decide), unlike '\\' (by decide)]
      exact (Spells.character notBlank notSpecial).append
        (inductionHypothesis safe.2)

/-- Text between single quotes spells what it spells there. -/
theorem of_quoted
    {text word : List Char}
    (spells : SpellsQuoted text word) :
    Spells (wrap text true) word where
  opens := by
    simp [wrap, isBlank]
  within := by
    intro rest
    have closes :
        scan .singleQuotes ('\'' :: rest) = scan .inWord rest := by
      simp [scan]
    have opensQuotes :
        scan .inWord (wrap text true ++ rest) =
          scan .singleQuotes (text ++ '\'' :: rest) := by
      simp [wrap, scan, isBlank]
    rw [opensQuotes, spells, closes]

/-- A quoted word spells that word. -/
theorem quote
    (word : List Char) :
    Spells (Shell.quote word) word := by
  show Spells (wrap (escape word).1 (escape word).2) word
  by_cases safe : word.all isSafe = true
  · simpa only [escape, safe, ↓reduceIte, wrap, Bool.false_eq_true] using of_safe safe
  · have quoted := of_quoted (spellsQuoted_escape word)
    simpa only [escape, safe, ↓reduceIte, Bool.false_eq_true] using quoted

/-- Where a word can begin, a text that is not empty begins one. -/
theorem scan_betweenWords
    {text word : List Char}
    (spells : Spells text word)
    (notEmpty : text ≠ [])
    (rest : List Char) :
    scan .betweenWords (text ++ rest) = extend word (scan .inWord rest) := by
  obtain ⟨first, others, rfl⟩ := List.exists_cons_of_ne_nil notEmpty
  obtain ⟨notBlank, notComment⟩ := spells.opens first rfl
  rw [← spells.within]
  simp [scan, notBlank, notComment]

end Spells

/-- Between words a space is skipped. -/
theorem scan_space
    (rest : List Char) :
    scan .betweenWords (' ' :: rest) = scan .betweenWords rest := by
  simp [scan, isBlank]

/-- Nothing but a space follows, if anything does. -/
def EndsHere (rest : List Char) : Prop :=
  ∀ character ∈ rest.head?, character = ' '

/-- A text that is read as a list of words where a word can begin. -/
def ReadsAs (text : List Char) (words : List (List Char)) : Prop :=
  ∀ rest,
    EndsHere rest →
    scan .betweenWords (text ++ rest) =
      (scan .betweenWords rest).map (words ++ ·)

namespace ReadsAs

/-- No text is read as no words. -/
theorem nil : ReadsAs [] [] := by
  intro rest _
  simp

/-- A text that spells a word is read as that word, unless it is empty. -/
theorem of_spells
    {text word : List Char}
    (spells : Spells text word)
    (notEmpty : text ≠ []) :
    ReadsAs text [word] := by
  intro rest ends
  rw [spells.scan_betweenWords notEmpty]
  cases rest with
  | nil =>
      exact extend_map_nil_cons word (some [])
  | cons character others =>
      obtain rfl : character = ' ' := ends character rfl
      have afterWord :
          scan .inWord (' ' :: others) =
            (scan .betweenWords others).map ([] :: ·) := by
        simp [scan, isBlank]
      rw [afterWord, scan_space, extend_map_nil_cons]
      rfl

/-- With a space between them two texts are read one after the other. -/
theorem append_space
    {first second : List Char}
    {words others : List (List Char)}
    (readsFirst : ReadsAs first words)
    (readsSecond : ReadsAs second others) :
    ReadsAs (first ++ ' ' :: second) (words ++ others) := by
  intro rest ends
  rw [List.append_assoc, List.cons_append, readsFirst _ (by simp [EndsHere]),
    scan_space, readsSecond rest ends, Option.map_map]
  simp [Function.comp_def]

/-- A text that is read as a list of words splits into them. -/
theorem split_eq
    {text : List Char}
    {words : List (List Char)}
    (reads : ReadsAs text words) :
    split text = some words := by
  have whole := reads [] (by simp [EndsHere])
  simpa [split, scan] using whole

end ReadsAs

end BuildGraph.Shell
