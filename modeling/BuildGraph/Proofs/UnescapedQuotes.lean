import BuildGraph.Proofs.Spelling
import Mathlib.Tactic.SplitIfs

namespace BuildGraph.Shell

/-!
# Quotes that are not escaped

Text that is put between single quotes without being escaped may hold a quote of its own.
The reader takes that quote for the closing one, and from there on it is always behind: the
quote should have been read as a character of the word, and so should all further syntax
that the reader takes for syntax.  No text that follows makes up for it, so the word is never
read as what was meant.
-/

/-- Characters that a reader within a word may take for more than themselves. -/
def isSyntax (character : Char) : Bool :=
  character = '\'' || character = '"' || character = '\\' || character = '\n'

/-- Modes in which a reader is within a word. -/
def Mode.isWithinWord : Mode → Bool
  | .betweenWords | .comment => false
  | .inWord | .afterBackslash | .singleQuotes | .doubleQuotes
  | .backslashInDoubleQuotes => true

/-- Characters in front of the word that was being read are the first of that word. -/
theorem of_extend_eq_some
    {front : List Char}
    {words : Option (List (List Char))}
    {word : List Char}
    {others : List (List Char)}
    (extended : extend front words = some (word :: others)) :
    ∃ behind,
      word = front ++ behind ∧ (behind ≠ [] → words = some (behind :: others)) := by
  induction front generalizing word with
  | nil =>
      exact ⟨word, rfl, fun _ => extended⟩
  | cons character rest inductionHypothesis =>
      obtain ⟨read, readRest, shape⟩ := Option.map_eq_some_iff.mp extended
      cases read with
      | nil =>
          obtain ⟨rfl, rfl⟩ := List.cons.inj shape
          cases rest with
          | nil =>
              exact ⟨[], rfl, fun notEmpty => absurd rfl notEmpty⟩
          | cons next further =>
              obtain ⟨read, _, shape⟩ := Option.map_eq_some_iff.mp readRest
              cases read <;> cases shape
      | cons later further =>
          obtain ⟨rfl, rfl⟩ := List.cons.inj shape
          obtain ⟨behind, rfl, words⟩ := inductionHypothesis readRest
          exact ⟨behind, rfl, words⟩

/--
A reader within a word owes it the characters that stand in the word in front of all that is
still to be read.  These are syntax that was taken for syntax, and behind a backslash there
are two of them at least.
-/
structure Owes (mode : Mode) (owed : List Char) : Prop where
  within : mode.isWithinWord = true
  notEmpty : owed ≠ []
  isSyntax : ∀ character ∈ owed, isSyntax character = true
  behindBackslash :
    mode = .afterBackslash ∨ mode = .backslashInDoubleQuotes → owed.tail ≠ []

namespace Owes

variable
  {mode next : Mode}
  {owed : List Char}
  {character : Char}

/-- Syntax that is taken for syntax is owed from then on. -/
theorem add
    (owes : Owes mode owed)
    (within : next.isWithinWord = true)
    (syntactic : Shell.isSyntax character = true) :
    Owes next (owed ++ [character]) where
  within := within
  notEmpty := by simp
  isSyntax := by
    rw [List.forall_mem_append, List.forall_mem_singleton]
    exact ⟨owes.isSyntax, syntactic⟩
  behindBackslash := by
    obtain ⟨first, rest, rfl⟩ := List.exists_cons_of_ne_nil owes.notEmpty
    simp

/-- A character that is read for itself pays for the same one, and is owed itself. -/
theorem pay
    {paid : List Char}
    (owes : Owes mode (paid ++ character :: owed))
    (within : next.isWithinWord = true)
    (noBackslash : next ≠ .afterBackslash ∧ next ≠ .backslashInDoubleQuotes) :
    Owes next (owed ++ [character]) where
  within := within
  notEmpty := by simp
  isSyntax := by
    have syntactic :=
      List.forall_mem_cons.mp (List.forall_mem_append.mp owes.isSyntax).2
    rw [List.forall_mem_append, List.forall_mem_singleton]
    exact ⟨syntactic.2, syntactic.1⟩
  behindBackslash := by
    simp [noBackslash]

/-- Only syntax can be read in the place of what is owed. -/
theorem isSyntax_of_extend
    (owes : Owes mode owed)
    (character : Char)
    {words : Option (List (List Char))}
    {word : List Char}
    {others : List (List Char)}
    (extended : extend [character] words = some ((owed ++ word) :: others)) :
    Shell.isSyntax character = true := by
  obtain ⟨first, rest, rfl⟩ := List.exists_cons_of_ne_nil owes.notEmpty
  obtain ⟨behind, shape, _⟩ := of_extend_eq_some extended
  obtain ⟨rfl, _⟩ := List.cons.inj shape
  exact owes.isSyntax _ List.mem_cons_self

/-- Two characters are read in the place of what is owed only if the second is syntax. -/
theorem isSyntax_of_extend_pair
    (owes : Owes mode owed)
    (atLeastTwo : owed.tail ≠ [])
    (first character : Char)
    {words : Option (List (List Char))}
    {word : List Char}
    {others : List (List Char)}
    (extended : extend [first, character] words = some ((owed ++ word) :: others)) :
    Shell.isSyntax character = true := by
  obtain ⟨one, further, rfl⟩ := List.exists_cons_of_ne_nil owes.notEmpty
  obtain ⟨two, rest, rfl⟩ := List.exists_cons_of_ne_nil atLeastTwo
  obtain ⟨behind, shape, _⟩ := of_extend_eq_some extended
  obtain ⟨-, shape⟩ := List.cons.inj shape
  obtain ⟨rfl, -⟩ := List.cons.inj shape
  exact owes.isSyntax _ (by simp)

end Owes

/-- What closes quotes: the quote that ends a word, or a slash in the rest of the word. -/
def Closes (closing word : List Char) : Prop :=
  (word = [] ∧ ∃ rest, closing = '\'' :: rest ∧ EndsHere rest) ∨
    ∃ behind rest, word = '/' :: behind ∧ closing = '/' :: rest

/-- Between quotes nothing but the space at the end of the word can be read. -/
theorem space_of_scan_quotes
    {mode : Mode}
    (quoted : mode = .singleQuotes ∨ mode = .doubleQuotes)
    {rest : List Char}
    (ends : EndsHere rest)
    {front word : List Char}
    {others : List (List Char)}
    (read : extend front (scan mode rest) = some (word :: others)) :
    front ++ [' '] <+: word := by
  cases rest with
  | nil =>
      have nothing : scan mode [] = none := by
        rcases quoted with rfl | rfl <;> rfl
      have failed (front : List Char) : extend front none = none := by
        induction front with
        | nil => rfl
        | cons character rest inductionHypothesis =>
            rw [extend_cons, inductionHypothesis]
            rfl
      rw [nothing, failed] at read
      cases read
  | cons character further =>
      obtain rfl : character = ' ' := ends character rfl
      have spaced : scan mode (' ' :: further) = extend [' '] (scan mode further) := by
        rcases quoted with rfl | rfl <;> rfl
      rw [spaced, ← extend_append] at read
      obtain ⟨behind, rfl, _⟩ := of_extend_eq_some read
      exact List.prefix_append _ _

/-- Behind a word that ends here nothing more of it is read. -/
theorem eq_of_scan_inWord
    {rest : List Char}
    (ends : EndsHere rest)
    (front : List Char)
    {word : List Char}
    {others : List (List Char)}
    (read : extend front (scan .inWord rest) = some (word :: others)) :
    word = front := by
  have ended : ∃ words, scan .inWord rest = Option.map ([] :: ·) words := by
    cases rest with
    | nil =>
        exact ⟨some [], rfl⟩
    | cons character further =>
        obtain rfl : character = ' ' := ends character rfl
        exact ⟨scan .betweenWords further, rfl⟩
  obtain ⟨words, ended⟩ := ended
  rw [ended, extend_map_nil_cons] at read
  obtain ⟨_, _, shape⟩ := Option.map_eq_some_iff.mp read
  exact (List.cons.inj shape).1.symm

/-- What is owed when the quotes close is not paid. -/
theorem scan_closing_ne_of_owes
    {mode : Mode}
    {owed closing word : List Char}
    (owes : Owes mode owed)
    (closes : Closes closing word)
    (others : List (List Char)) :
    scan mode closing ≠ some ((owed ++ word) :: others) := by
  intro read
  rcases closes with ⟨rfl, rest, rfl, ends⟩ | ⟨behind, rest, rfl, rfl⟩
  · rw [List.append_nil] at read
    have spaceless : ∀ front : List Char, ¬ front ++ [' '] <+: owed := by
      intro front begins
      have member : ' ' ∈ owed := begins.subset (by simp)
      exact absurd (owes.isSyntax ' ' member) (by decide)
    cases mode with
    | betweenWords | comment =>
        exact absurd owes.within (by decide)
    | inWord =>
        exact spaceless [] (space_of_scan_quotes (.inl rfl) ends read)
    | afterBackslash =>
        have same := eq_of_scan_inWord ends ['\''] read
        have atLeastTwo := owes.behindBackslash (.inl rfl)
        rw [same] at atLeastTwo
        exact atLeastTwo rfl
    | singleQuotes =>
        exact owes.notEmpty (eq_of_scan_inWord ends [] read)
    | doubleQuotes =>
        exact spaceless ['\''] (space_of_scan_quotes (.inr rfl) ends read)
    | backslashInDoubleQuotes =>
        exact spaceless ['\\', '\''] (space_of_scan_quotes (.inr rfl) ends read)
  · cases mode with
    | betweenWords | comment =>
        exact absurd owes.within (by decide)
    | inWord | afterBackslash | singleQuotes | doubleQuotes =>
        have syntactic := owes.isSyntax_of_extend '/' read
        exact absurd syntactic (by decide)
    | backslashInDoubleQuotes =>
        have syntactic :=
          owes.isSyntax_of_extend_pair (owes.behindBackslash (.inr rfl)) '\\' '/' read
        exact absurd syntactic (by decide)

/-- Whatever is owed in front of a text is not paid when the text and the closing are read. -/
def NeverPaid
    (closing word : List Char)
    (others : List (List Char))
    (text : List Char) :
    Prop :=
  ∀ {mode : Mode} {owed : List Char},
    Owes mode owed →
    scan mode (text ++ closing) ≠ some ((owed ++ (text ++ word)) :: others)

namespace NeverPaid

variable
  {closing word rest : List Char}
  {others : List (List Char)}
  {next : Mode}
  {character : Char}

/-- A character that was added to what is owed is not paid either. -/
theorem goesOn
    (never : NeverPaid closing word others rest)
    {later : List Char}
    (owesLater : Owes next (later ++ [character])) :
    scan next (rest ++ closing) ≠ some ((later ++ character :: (rest ++ word)) :: others) := by
  simpa using never owesLater

/-- A character that is read for itself pays what it is owed, but it is owed itself then. -/
theorem pays
    (never : NeverPaid closing word others rest)
    {mode : Mode}
    {owed : List Char}
    (owes : Owes mode owed)
    (first : List Char)
    (within : next.isWithinWord = true)
    (noBackslash : next ≠ .afterBackslash ∧ next ≠ .backslashInDoubleQuotes)
    (enough : first.length < owed.length) :
    extend (first ++ [character]) (scan next (rest ++ closing)) ≠
      some ((owed ++ character :: (rest ++ word)) :: others) := by
  intro read
  obtain ⟨behind, shape, readBehind⟩ := of_extend_eq_some read
  have inWord : first ++ [character] <+: owed ++ character :: (rest ++ word) :=
    shape ▸ List.prefix_append _ _
  have inOwed : first ++ [character] <+: owed :=
    List.prefix_of_prefix_length_le inWord (List.prefix_append _ _) (by simpa)
  obtain ⟨later, rfl⟩ := inOwed
  have isBehind : later ++ character :: (rest ++ word) = behind := by
    rw [List.append_assoc] at shape
    exact List.append_cancel_left shape
  rw [List.append_assoc, List.singleton_append] at owes
  refine never.goesOn (owes.pay within noBackslash) ?_
  rw [isBehind]
  exact readBehind (by simp [← isBehind])

/--
One more character in front of a text changes nothing: either it is syntax and owed from then
on, or it takes the place of the first character that is owed and so is syntax itself.
-/
theorem cons
    (never : NeverPaid closing word others rest)
    (character : Char) :
    NeverPaid closing word others (character :: rest) := by
  intro mode owed owes read
  have one : 0 < owed.length := List.length_pos_iff.mpr owes.notEmpty
  rw [List.cons_append, List.cons_append] at read
  cases mode with
  | betweenWords | comment =>
      exact absurd owes.within (by decide)
  | inWord =>
      rw [scan] at read
      split_ifs at read with isBlank isQuote isDoubleQuote isBackslash
      · obtain ⟨_, _, shape⟩ := Option.map_eq_some_iff.mp read
        have noneOwed := (List.cons.inj shape).1.symm
        exact owes.notEmpty (List.append_eq_nil_iff.mp noneOwed).1
      · exact never.goesOn (owes.add rfl (by simp [isSyntax, isQuote])) read
      · exact never.goesOn (owes.add rfl (by simp [isSyntax, isDoubleQuote])) read
      · exact never.goesOn (owes.add rfl (by simp [isSyntax, isBackslash])) read
      · have syntactic := owes.isSyntax_of_extend character read
        have notBreak : character ≠ '\n' := by
          rintro rfl
          exact isBlank rfl
        simp [isSyntax, isQuote, isDoubleQuote, isBackslash, notBreak] at syntactic
  | afterBackslash =>
      rw [scan] at read
      split_ifs at read with isBreak
      · exact never.goesOn (owes.add rfl (by simp [isSyntax, isBreak])) read
      · exact never.pays owes [] rfl (by decide) one read
  | singleQuotes =>
      rw [scan] at read
      split_ifs at read with isQuote
      · exact never.goesOn (owes.add rfl (by simp [isSyntax, isQuote])) read
      · exact never.pays owes [] rfl (by decide) one read
  | doubleQuotes =>
      rw [scan] at read
      split_ifs at read with isDoubleQuote isBackslash
      · exact never.goesOn (owes.add rfl (by simp [isSyntax, isDoubleQuote])) read
      · exact never.goesOn (owes.add rfl (by simp [isSyntax, isBackslash])) read
      · exact never.pays owes [] rfl (by decide) one read
  | backslashInDoubleQuotes =>
      have two : 1 < owed.length := by
        have atLeastTwo := owes.behindBackslash (.inr rfl)
        rw [← List.length_pos_iff, List.length_tail] at atLeastTwo
        omega
      rw [scan] at read
      split_ifs at read with isSpecial isBreak
      · exact never.pays owes [] rfl (by decide) one read
      · exact never.goesOn (owes.add rfl (by simp [isSyntax, isBreak])) read
      · exact never.pays owes ['\\'] rfl (by decide) two read

end NeverPaid

/-- What is owed is never paid, whatever text is still to be read. -/
theorem neverPaid_of_closes
    {closing word : List Char}
    (closes : Closes closing word)
    (others : List (List Char))
    (text : List Char) :
    NeverPaid closing word others text := by
  induction text with
  | nil =>
      exact fun owes => scan_closing_ne_of_owes owes closes others
  | cons character rest inductionHypothesis =>
      exact inductionHypothesis.cons character

/--
Text and the escaped rest of a word between one pair of quotes are read as that word just if
no quote is in the text.
-/
theorem scan_wrap_iff
    (text : List Char)
    {closing word : List Char}
    (spells : SpellsQuoted closing word)
    (rooted : (closing = [] ∧ word = []) ∨ (closing.head? = some '/' ∧ word.head? = some '/'))
    {rest : List Char}
    (ends : EndsHere rest)
    {others : List (List Char)}
    (read : scan .betweenWords rest = some others) :
    scan .betweenWords (wrap (text ++ closing) true ++ rest) =
        some ((text ++ word) :: others) ↔
      '\'' ∉ text := by
  constructor
  · intro readAll member
    obtain ⟨front, behind, rfl, quoteless⟩ := List.eq_append_cons_of_mem member
    have quoted := SpellsQuoted.of_quoteless quoteless
    have opened :
        scan .betweenWords (wrap (front ++ '\'' :: behind ++ closing) true ++ rest) =
          extend front (scan .inWord (behind ++ (closing ++ '\'' :: rest))) := by
      have shape :
          wrap (front ++ '\'' :: behind ++ closing) true ++ rest =
            '\'' :: (front ++ '\'' :: (behind ++ (closing ++ '\'' :: rest))) := by
        simp [wrap]
      rw [shape]
      exact quoted ('\'' :: (behind ++ (closing ++ '\'' :: rest)))
    rw [opened, List.append_assoc] at readAll
    obtain ⟨later, shape, readLater⟩ := of_extend_eq_some readAll
    obtain rfl := List.append_cancel_left shape
    have closes : Closes (closing ++ '\'' :: rest) word := by
      rcases rooted with ⟨rfl, rfl⟩ | ⟨closingRooted, wordRooted⟩
      · exact .inl ⟨rfl, rest, rfl, ends⟩
      · obtain ⟨further, rfl⟩ := List.head?_eq_some_iff.mp closingRooted
        obtain ⟨suffix, rfl⟩ := List.head?_eq_some_iff.mp wordRooted
        exact .inr ⟨suffix, _, rfl, rfl⟩
    have owes : Owes .inWord ['\''] :=
      ⟨rfl, by simp, List.forall_mem_singleton.mpr rfl, by decide⟩
    exact neverPaid_of_closes closes others behind owes (readLater (by simp))
  · intro quoteless
    have quoted := (SpellsQuoted.of_quoteless quoteless).append spells
    have reads := ReadsAs.of_spells (.of_quoted quoted) (by simp [wrap])
    rw [reads rest ends, read]
    rfl

end BuildGraph.Shell
