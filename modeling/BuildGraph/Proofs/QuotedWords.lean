import BuildGraph.Proofs.Spelling

namespace BuildGraph.Shell

/-!
# Words that are quoted

Whatever characters a word is made of, the shell reads it back from its quoted form.  Only the
empty word leaves nothing to be read.  A word may be escaped in pieces, however it is cut, as
long as the quotes are put around all of them together.
-/

/-! ## Joined words -/

/-- A quoted word is read as that word, and an empty one as nothing. -/
theorem readsAs_quote
    (word : List Char) :
    ReadsAs (quote word) ([word].filter (· ≠ [])) := by
  by_cases isEmpty : word = []
  · rw [isEmpty]
    exact .nil
  · have notEmpty : quote word ≠ [] := mt quote_eq_nil_iff.mp isEmpty
    rw [List.filter_cons_of_pos (by simpa using isEmpty)]
    exact .of_spells (.quote word) notEmpty

/-- A word stands in front of the words that follow it with a single space between them. -/
theorem join_cons
    (word : List Char)
    {rest : List (List Char)}
    (goesOn : rest ≠ []) :
    join (word :: rest) = quote word ++ ' ' :: join rest := by
  have quotedRest : rest.map quote ≠ [] := by
    simpa using goesOn
  rw [join, List.map_cons, List.intercalate_cons_of_ne_nil quotedRest, List.append_assoc]
  rfl

/-- Joined words are read as those of them that are not empty. -/
theorem readsAs_join
    (words : List (List Char)) :
    ReadsAs (join words) (words.filter (· ≠ [])) := by
  induction words with
  | nil =>
      exact .nil
  | cons word rest inductionHypothesis =>
      by_cases isLast : rest = []
      · rw [isLast, join, List.map_singleton, List.intercalate_singleton]
        exact readsAs_quote word
      · have together := (readsAs_quote word).append_space inductionHypothesis
        rwa [← join_cons word isLast, ← List.filter_append, List.singleton_append] at together

/--
Splitting undoes joining, but for the empty words, which are lost.  So the words come back just
if none of them is empty, and a single word comes back from its quoted form just if it is not.
-/
theorem split_join_eq_filter
    (words : List (List Char)) :
    split (join words) = some (words.filter (· ≠ [])) ∧
      (split (join words) = some words ↔ [] ∉ words) ∧
      ∀ word : List Char, split (quote word) = some [word] ↔ word ≠ [] := by
  have joined := (readsAs_join words).split_eq
  refine ⟨joined, ?_, fun word => ?_⟩
  · rw [joined, Option.some_inj, List.filter_eq_self]
    simp only [decide_eq_true_iff]
    exact ⟨fun filled member => filled [] member rfl,
      fun noneEmpty word member isEmpty => noneEmpty (isEmpty ▸ member)⟩
  · rw [(readsAs_quote word).split_eq, Option.some_inj, List.filter_eq_self]
    simp

example :
    split (join ["'it's'".toList, [], "# \"\\\n$é".toList, "'".toList]) =
      some ["'it's'".toList, "# \"\\\n$é".toList, "'".toList] := by
  decide

/-! ## Escaped pieces -/

/--
Escaping piece by piece is escaping the whole: the texts follow each other, and the whole needs
quotes just if a piece does.  So the pieces between one pair of quotes are the whole, quoted.
-/
theorem escape_flatten
    (pieces : List (List Char)) :
    let text := pieces.flatMap fun piece => (escape piece).1
    let needsQuotes := pieces.any fun piece => (escape piece).2
    escape pieces.flatten = (text, needsQuotes) ∧
      wrap text needsQuotes = quote pieces.flatten := by
  intro text needsQuotes
  have sameText : pieces.flatten.flatMap escapeCharacter = text := by
    simp only [text, escape_eq, List.flatten_eq_flatMap, List.flatMap_assoc, id_eq]
  have sameNeed : (!pieces.flatten.all isSafe) = needsQuotes := by
    simp only [needsQuotes, escape_eq, List.all_flatten, List.not_all_eq_any_not]
  have whole : escape pieces.flatten = (text, needsQuotes) := by
    rw [escape_eq, sameText, sameNeed]
  refine ⟨whole, ?_⟩
  show _ = wrap (escape pieces.flatten).1 (escape pieces.flatten).2
  rw [whole]

end BuildGraph.Shell
