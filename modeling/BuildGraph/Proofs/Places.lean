import BuildGraph.Proofs.Lines
import Mathlib.Data.List.DropRight

namespace BuildGraph.Text

/-!
# Places and the characters there

The place of a character in the contents of a line leads back to that character.  Whatever
place is given, it leads to somewhere between two characters, and the span there covers one
character of the contents of a line or nothing at all.
-/

/-! ## Bytes -/

@[simp] theorem byteLength_append
    (first second : List Char) :
    byteLength (first ++ second) = byteLength first + byteLength second := by
  induction first with
  | nil =>
      exact (Nat.zero_add _).symm
  | cons character rest inductionHypothesis =>
      rw [List.cons_append, byteLength, inductionHypothesis, byteLength, Nat.add_assoc]

/-- What is in front of a text has no more bytes than the text. -/
theorem byteLength_le_of_front
    {first text : List Char}
    (inFront : first <+: text) :
    byteLength first ≤ byteLength text := by
  obtain ⟨rest, rfl⟩ := inFront
  rw [byteLength_append]
  exact Nat.le_add_right _ _

/-- Behind the bytes of some characters there is the next character. -/
theorem characterAt?_byteLength
    (front rest : List Char) :
    characterAt? (front ++ rest) (byteLength front) = rest.head? := by
  induction front with
  | nil =>
      cases rest <;> simp [characterAt?, byteLength]
  | cons character others inductionHypothesis =>
      have notFirst : byteLength (character :: others) ≠ 0 := by
        have positive := character.utf8Size_pos
        rw [byteLength]
        omega
      rw [List.cons_append, characterAt?, if_neg notFirst, byteLength,
        if_pos (Nat.le_add_right _ _), Nat.add_sub_cancel_left, inductionHypothesis]

/-! ## Contents of lines -/

/-- The contents of a line are in front of what ends it. -/
theorem lineContents_inFront
    (line : List Char) :
    lineContents line <+: line :=
  List.rdropWhile_prefix isLineEnd line

/-- In front of a character that ends no line everything belongs to the contents. -/
theorem lineContents_append
    (first : List Char)
    {second : List Char}
    (filled : ∃ character ∈ second, isLineEnd character = false) :
    lineContents (first ++ second) = first ++ lineContents second := by
  have remains : (second.reverse.dropWhile isLineEnd).isEmpty = false := by
    obtain ⟨character, member, noEnd⟩ := filled
    rw [List.isEmpty_eq_false_iff, ne_eq, List.dropWhile_eq_nil_iff]
    intro allEnd
    have isEnd := allEnd character (List.mem_reverse.mpr member)
    rw [noEnd] at isEnd
    contradiction
  rw [lineContents, List.reverse_append, List.dropWhile_append, remains]
  simp [lineContents]

/-- The contents of the line that a text begins with. -/
def firstContents (text : List Char) : List Char :=
  lineContents (text.takeWhile (· ≠ '\n'))

/-- The line break of a line does not belong to its contents. -/
theorem lineContents_concat_newline
    (line : List Char) :
    lineContents (line ++ ['\n']) = lineContents line :=
  List.rdropWhile_concat_pos isLineEnd line '\n' rfl

/-! ## Lines and their offsets -/

/--
A line begins at the rest of a text, behind as many lines as its number says.  The lines are
counted from one, and line zero is the first one as well.
-/
structure LineBegins
    (text : List Char)
    (number : Nat)
    (before : List (List Char))
    (rest : List Char) :
    Prop where
  text_eq : text = unlines before ++ rest
  single : ∀ line ∈ before, '\n' ∉ line
  length_eq : before.length = number - 1

theorem linesWithBreaks_of_single
    {line : List Char}
    (notEmpty : line ≠ [])
    (single : '\n' ∉ line) :
    linesWithBreaks line = [line] := by
  induction line with
  | nil =>
      exact absurd rfl notEmpty
  | cons character rest inductionHypothesis =>
      rw [List.mem_cons, not_or] at single
      rw [linesWithBreaks, if_neg (Ne.symm single.1)]
      by_cases isLast : rest = []
      · rw [isLast]
        rfl
      · rw [inductionHypothesis isLast single.2]

/-- On the first line of a text a column is counted from the beginning of the text. -/
theorem offsetIn_zero
    (text : List Char)
    (column : Nat) :
    offsetIn (linesWithBreaks text) 0 column =
      byteLength ((firstContents text).take column) := by
  by_cases hasBreak : '\n' ∈ text
  · obtain ⟨line, rest, rfl, single⟩ := List.eq_append_cons_of_mem hasBreak
    rw [linesWithBreaks_append single, offsetIn, lineContents_concat_newline, firstContents,
      takeWhile_append_of_notMem single]
  · have whole : text.takeWhile (· ≠ '\n') = text := by
      simpa using takeWhile_append_of_separatorless hasBreak []
    rw [firstContents, whole]
    by_cases isEmpty : text = []
    · rw [isEmpty]
      simp [linesWithBreaks, offsetIn, lineContents, byteLength]
    · rw [linesWithBreaks_of_single isEmpty hasBreak, offsetIn]

/-- A place on a line is behind the lines in front and the contents up to its column. -/
theorem byteIndex_of_lineBegins
    {text : List Char}
    {place : Place}
    {before : List (List Char)}
    {rest : List Char}
    (begins : LineBegins text place.line before rest) :
    byteIndex text place =
      byteLength (unlines before) +
        byteLength ((firstContents rest).take (place.column - 1)) := by
  obtain ⟨rfl, singles, lengthEq⟩ := begins
  rw [byteIndex, ← lengthEq]
  clear lengthEq
  induction before with
  | nil =>
      rw [List.length_nil, unlines, List.flatMap_nil, List.nil_append, offsetIn_zero]
      exact (Nat.zero_add _).symm
  | cons line others inductionHypothesis =>
      rw [List.forall_mem_cons] at singles
      rw [unlines_cons, List.append_assoc, List.cons_append, linesWithBreaks_append singles.1,
        List.length_cons, offsetIn, inductionHypothesis singles.2]
      simp only [byteLength_append, byteLength]
      omega

/-! ## Places and characters -/

/-- The place of the character that follows a text. -/
def placeBehind (front : List Char) : Place where
  line := front.count '\n' + 1
  column := (front.rtakeWhile (· ≠ '\n')).length + 1

theorem count_unlines
    {lines : List (List Char)}
    (single : ∀ line ∈ lines, '\n' ∉ line) :
    (unlines lines).count '\n' = lines.length := by
  induction lines with
  | nil =>
      rfl
  | cons line rest inductionHypothesis =>
      rw [List.forall_mem_cons] at single
      rw [unlines_cons, List.count_append, List.count_eq_zero_of_not_mem single.1, Nat.zero_add,
        List.count_cons_self, inductionHypothesis single.2, List.length_cons]

/-- Behind complete lines, what follows the last line break is the line that has begun. -/
theorem rtakeWhile_unlines_append
    (lines : List (List Char))
    {line : List Char}
    (single : '\n' ∉ line) :
    (unlines lines ++ line).rtakeWhile (· ≠ '\n') = line := by
  obtain rfl | ⟨others, last, rfl⟩ := lines.eq_nil_or_concat
  · rw [unlines, List.flatMap_nil, List.nil_append, List.rtakeWhile_eq_self_iff]
    intro character member
    simpa using ne_of_mem_of_not_mem member single
  · have unread : '\n' ∉ line.reverse := mt List.mem_reverse.mp single
    have shape :
        (unlines (others.concat last) ++ line).reverse =
          line.reverse ++ '\n' :: (unlines others ++ last).reverse := by
      simp [unlines_append, unlines_singleton]
    rw [List.rtakeWhile, shape, takeWhile_append_of_notMem unread, List.reverse_reverse]

theorem placeBehind_unlines_append
    {before : List (List Char)}
    (singles : ∀ line ∈ before, '\n' ∉ line)
    {line : List Char}
    (single : '\n' ∉ line) :
    placeBehind (unlines before ++ line) =
      { line := before.length + 1, column := line.length + 1 } := by
  rw [placeBehind, rtakeWhile_unlines_append before single, List.count_append,
    count_unlines singles, List.count_eq_zero_of_not_mem single, Nat.add_zero]

/--
Whether the character that a text begins with belongs to the contents of its line: it or one
behind it on the line is neither a line feed nor a carriage return.
-/
def BeginsInContents (text : List Char) : Prop :=
  ∃ character ∈ text.takeWhile (· ≠ '\n'), isLineEnd character = false

/-- A character of the contents of a line is found at its place. -/
theorem byteIndex_placeBehind
    (front : List Char)
    {rest : List Char}
    (inContents : BeginsInContents rest) :
    byteIndex (front ++ rest) (placeBehind front) = byteLength front := by
  obtain ⟨before, line, rfl, singles, single⟩ := exists_unlines_append front
  have begins :
      LineBegins (unlines before ++ line ++ rest) (placeBehind (unlines before ++ line)).line
        before (line ++ rest) :=
    ⟨List.append_assoc _ _ _, singles, by rw [placeBehind_unlines_append singles single]; rfl⟩
  have contents : firstContents (line ++ rest) = line ++ firstContents rest := by
    rw [firstContents, takeWhile_append_of_separatorless single,
      lineContents_append line inContents]
    rfl
  rw [byteIndex_of_lineBegins begins, placeBehind_unlines_append singles single, contents,
    Nat.add_sub_cancel, List.take_left', byteLength_append]
  rfl

/-- Among lines one after the other every offset is between two characters. -/
theorem exists_offsetIn
    (lines : List (List Char))
    (line column : Nat) :
    ∃ front rest,
      lines.flatten = front ++ rest ∧ offsetIn lines line column = byteLength front := by
  induction lines generalizing line with
  | nil =>
      exact ⟨[], [], rfl, by simp [offsetIn, byteLength]⟩
  | cons first others inductionHypothesis =>
      cases line with
      | zero =>
          have inContents := List.take_prefix column (lineContents first)
          obtain ⟨rest, shape⟩ := inContents.trans (lineContents_inFront first)
          refine ⟨_, rest ++ others.flatten, ?_, rfl⟩
          rw [List.flatten_cons, ← List.append_assoc, shape]
      | succ earlier =>
          obtain ⟨front, rest, shape, offset⟩ := inductionHypothesis earlier
          refine ⟨first ++ front, rest, ?_, ?_⟩
          · rw [List.flatten_cons, shape, List.append_assoc]
          · rw [offsetIn, offset, byteLength_append]

/-- Every place leads to somewhere between two characters. -/
theorem exists_byteIndex
    (text : List Char)
    (place : Place) :
    ∃ front rest, text = front ++ rest ∧ byteIndex text place = byteLength front := by
  have found := exists_offsetIn (linesWithBreaks text) (place.line - 1) (place.column - 1)
  rwa [flatten_linesWithBreaks] at found

/-! ## Spans -/

/-- A span covers a part of a text: it is in the place of that part, from end to end. -/
def Span.Covers (span : Span) (text covered : List Char) : Prop :=
  ∃ front behind,
    text = front ++ (covered ++ behind) ∧
      span.offset = byteLength front ∧ span.length = byteLength covered

/-- What a span covers is within the text. -/
theorem Span.Covers.end_le
    {span : Span}
    {text covered : List Char}
    (covers : span.Covers text covered) :
    span.offset + span.length ≤ byteLength text := by
  obtain ⟨front, behind, rfl, offset, length⟩ := covers
  rw [offset, length, byteLength_append, byteLength_append, ← Nat.add_assoc]
  exact Nat.le_add_right _ _

/-- The span at a place covers the next character, unless that ends a line or the text. -/
theorem covers_spanAt
    {front rest : List Char}
    {place : Place}
    (offset : byteIndex (front ++ rest) place = byteLength front) :
    (spanAt (front ++ rest) place).Covers (front ++ rest)
      ((rest.take 1).filter fun character => !isLineEnd character) := by
  have next : characterAt? (front ++ rest) (byteIndex (front ++ rest) place) = rest.head? := by
    rw [offset, characterAt?_byteLength]
  cases rest with
  | nil =>
      exact ⟨front, [], rfl, offset, by simp only [spanAt, next]; rfl⟩
  | cons character others =>
      by_cases ends : isLineEnd character = true
      · exact ⟨front, character :: others, by simp [ends], offset,
          by simp [spanAt, next, ends, byteLength]⟩
      · exact ⟨front, others, by simp [ends], offset, by simp [spanAt, next, ends, byteLength]⟩

/--
The place of a character leads back to it.  A character of the contents of a line is found at
the line and the column that are one more than the numbers of line breaks in front of it and
of characters in front of it on the line, and the span there covers it, if it is no carriage
return.  Whatever place is given, the span there is within the text, begins and ends between
two characters, and covers one character at most and none that ends a line.  On a line that
there is, it begins within the contents or at their end.
-/
theorem byteIndex_spanAt
    (text : List Char) :
    (∀ front character rest,
        text = front ++ character :: rest →
        BeginsInContents (character :: rest) →
        byteIndex text (placeBehind front) = byteLength front ∧
          (spanAt text (placeBehind front)).Covers text
            (if character = '\r' then [] else [character])) ∧
      ∀ place,
        let span := spanAt text place
        span.offset + span.length ≤ byteLength text ∧
          (∃ covered,
            span.Covers text covered ∧
              covered.length ≤ 1 ∧
              ∀ character ∈ covered, isLineEnd character = false) ∧
          ∀ before rest,
            LineBegins text place.line before rest →
            byteLength (unlines before) ≤ span.offset ∧
              span.offset ≤ byteLength (unlines before) + byteLength (firstContents rest) := by
  constructor
  · rintro front character rest rfl inContents
    have found := byteIndex_placeBehind front inContents
    have covers := covers_spanAt found
    refine ⟨found, ?_⟩
    have notBreak : character ≠ '\n' := by
      rintro rfl
      simp [BeginsInContents] at inContents
    have same :
        ((character :: rest).take 1).filter (fun other => !isLineEnd other) =
          if character = '\r' then [] else [character] := by
      by_cases isReturn : character = '\r' <;> simp [isLineEnd, notBreak, isReturn]
    rwa [same] at covers
  · intro place span
    obtain ⟨front, rest, rfl, offset⟩ := exists_byteIndex text place
    have covers := covers_spanAt offset
    refine ⟨covers.end_le, ⟨_, covers, ?_, ?_⟩, ?_⟩
    · exact (List.length_filter_le _ _).trans (List.length_take_le 1 rest)
    · intro character member
      simpa using List.of_mem_filter member
    · intro before rest' begins
      have start : span.offset = _ := byteIndex_of_lineBegins begins
      have isFront := List.take_prefix (place.column - 1) (firstContents rest')
      have inFront := byteLength_le_of_front isFront
      omega

/--
A bracket behind a letter of two bytes is found at its column, and what comes behind the end of
a line is found at the end of its contents, in front of the carriage return.
-/
theorem byteIndex_spanAt_bracket :
    let text := "a: x\r\ncafé: [\r\n".toList
    let bracket : Place := { line := 2, column := 7 }
    let faraway : Place := { line := 0, column := 99 }
    BeginsInContents "[\r\n".toList ∧
      byteIndex text bracket = 13 ∧
      (spanAt text bracket).Covers text ['['] ∧
      LineBegins text faraway.line [] text ∧
      (spanAt text faraway).offset ≤ 4 := by
  intro text bracket faraway
  have inContents : BeginsInContents "[\r\n".toList := ⟨'[', by decide, by decide⟩
  have begins : LineBegins text faraway.line [] text := ⟨rfl, by simp, rfl⟩
  have found :=
    (byteIndex_spanAt text).1 "a: x\r\ncafé: ".toList '[' "\r\n".toList rfl inContents
  have onLine := ((byteIndex_spanAt text).2 faraway).2.2 [] text begins
  exact ⟨inContents, found.1, found.2, begins, onLine.2⟩

end BuildGraph.Text
