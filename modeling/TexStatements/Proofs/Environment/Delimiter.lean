import TexStatements.Proofs.Statement.Provenance
import TexStatements.Proofs.Text.Plain
import TexStatements.Proofs.Text.Trim
import TexStatements.Proofs.Text.Words

/-!
# Where delimiters are found

A delimiter is a backslash, the word of its end, blanks, and a name in braces that has no brace and
may have blanks around it. What is read at one place could hide another delimiter only inside of the
name, but that one would have a brace of its own. So no two delimiters overlap, and the search for
them passes over none.
-/
namespace TexStatements

/-- A place where a reader succeeds is found, or lies in front of where the reading from an earlier
place ends. -/
theorem Reader.mem_occurrences_or_passed {α : Type} {reader : Reader α} {place rest : Text}
    {value : α} (read : reader.read place = some (value, rest)) (front : Text) :
    ⟨place, value, rest⟩ ∈ reader.occurrences (front ++ place) ∨
      ∃ found ∈ reader.occurrences (front ++ place), ∃ between, between ≠ [] ∧
        found.place = between ++ place ∧ found.rest.length < place.length := by
  generalize whole : front ++ place = text
  fun_induction reader.occurrences text generalizing front with
  | case1 =>
    have longer := (reader.advances read).length_lt
    rw [(List.append_eq_nil_iff.1 whole).2] at longer
    cases longer
  | case2 first tail found after here ih =>
    cases front with
    | nil =>
      rw [List.nil_append] at whole
      rw [whole, here] at read
      cases read
      exact .inl (by simp [whole])
    | cons next front =>
      by_cases passed : after.length < place.length
      · exact .inr ⟨_, List.mem_cons_self, next :: front, List.cons_ne_nil _ _, whole.symm, passed⟩
      · -- The place is behind what is read here.
        have isBehind : after <:+ tail := by
          obtain ⟨_, _, same, suffix⟩ := reader.advances here
          cases same
          exact suffix
        have inTail : place <:+ tail := ⟨front, (List.cons.inj whole).2⟩
        obtain ⟨between, same⟩ :=
          List.suffix_of_suffix_length_le inTail isBehind (Nat.le_of_not_lt passed)
        rcases ih between same with mem | ⟨found, mem, overlaps⟩
        · exact .inl (List.mem_cons_of_mem _ mem)
        · exact .inr ⟨found, List.mem_cons_of_mem _ mem, overlaps⟩
  | case3 first tail unread ih =>
    cases front with
    | nil =>
      rw [List.nil_append] at whole
      rw [whole, unread] at read
      cases read
    | cons next front => exact ih front (List.cons.inj whole).2

namespace Environment

variable {part : End} {name rest : Text}

/-- The word of an end is made of letters. -/
theorem End.isControlLetter_of_mem_word {c : Char} (mem : c ∈ part.word) :
    isControlLetter c = true := by
  have letters : ∀ c ∈ part.word, isControlLetter c = true := by cases part <;> decide
  exact letters c mem

/-- A delimiter is read from its backslash, its word, blanks and its name in braces. -/
theorem delimiter_read_eq_some_iff {text : Text} {found : Delimiter} :
    delimiter.read text = some (found, rest) ↔
      ∃ blanks inner : Text, (∀ c ∈ blanks, isBlank c = true) ∧ inner.Flat ∧
        found.name = inner.trim ∧
        text = '\\' :: (found.part.word ++ (blanks ++ '{' :: (inner ++ '}' :: rest))) := by
  constructor
  · intro read
    simp only [delimiter, Reader.thenFlatGroup, Reader.andThen, controlWord, Option.bind_eq_bind,
      Option.bind_eq_some_iff] at read
    obtain ⟨⟨word, after⟩, start, grouped⟩ := read
    split at start
    · rename_i tail
      split at start
      · cases start
        dsimp only at grouped
        split at grouped
        · rename_i inner after group
          simp only [Option.map_map, Option.map_eq_some_iff, Function.comp_apply,
            End.ofWord?_eq_some_iff, Prod.mk.injEq] at grouped
          obtain ⟨part, isEnd, rfl, rfl⟩ := grouped
          obtain ⟨flat, opened⟩ := flatGroup?_eq_some_iff.1 group
          obtain ⟨blanks, blank, split⟩ := Text.exists_trimStart (tail.dropWhile isControlLetter)
          refine ⟨blanks, inner, blank, flat, rfl, ?_⟩
          rw [← opened, ← split, ← isEnd, List.takeWhile_append_dropWhile]
        · cases grouped
      · cases start
    · cases start
  · rintro ⟨blanks, inner, blank, flat, named, rfl⟩
    have stops : ∀ first ∈ (blanks ++ '{' :: (inner ++ '}' :: rest)).head?,
        isControlLetter first = false := by
      cases blanks with
      | nil => simp [isControlLetter]
      | cons first more => simpa using isControlLetter_of_isBlank (blank first List.mem_cons_self)
    have grouped : flatGroup? (blanks ++ '{' :: (inner ++ '}' :: rest)) = some (inner, rest) :=
      flatGroup?_eq_some_iff.2 ⟨flat, Text.trimStart_append blank _⟩
    have isEnd : End.ofWord? found.part.word = some found.part := End.ofWord?_eq_some_iff.2 rfl
    have letters : ∀ letter ∈ found.part.word, isControlLetter letter = true :=
      fun _ => End.isControlLetter_of_mem_word
    have start := Reader.controlWord_read (fun word => (End.ofWord? word).isSome) letters stops
    simp [delimiter, Reader.thenFlatGroup, Reader.andThen, start, isEnd, grouped, ← named]

/-- A literal tag is read as a delimiter. -/
theorem delimiter_read_tag (flat : name.Flat) :
    delimiter.read (part.tag name ++ rest) = some (⟨part, name.trim⟩, rest) := by
  refine delimiter_read_eq_some_iff.2 ⟨[], name, by simp, flat, rfl, ?_⟩
  simp [End.tag]

/-- Only letters are in the word of an end. -/
theorem End.not_mem_word (part : End) {c : Char} (other : isControlLetter c = false) :
    c ∉ part.word := by
  intro mem
  rw [End.isControlLetter_of_mem_word mem] at other
  cases other

/-- Of two delimiters at different places the first one ends in front of the second. -/
theorem delimiters_apart {between place after : Text} {found other : Delimiter}
    (nonempty : between ≠ []) (read : delimiter.read (between ++ place) = some (found, after))
    (behind : delimiter.read place = some (other, rest)) : place.length ≤ after.length := by
  obtain ⟨blanks, inner, blank, flat, -, whole⟩ := delimiter_read_eq_some_iff.1 read
  obtain ⟨otherBlanks, otherInner, otherBlank, -, -, rfl⟩ := delimiter_read_eq_some_iff.1 behind
  obtain ⟨first, between, rfl⟩ := List.exists_cons_of_ne_nil nonempty
  have divided : found.part.word ++ (blanks ++ ['{']) ++ (inner ++ '}' :: after) =
      between ++ '\\' ::
        (other.part.word ++ (otherBlanks ++ '{' :: (otherInner ++ '}' :: rest))) := by
    simpa using (List.cons.inj whole).2.symm
  -- The backslash of the second one is neither in the word nor in the blanks.
  have absent : '\\' ∉ found.part.word ++ (blanks ++ ['{']) := by
    have noBlank : '\\' ∉ blanks := Text.not_mem_of_blank blank rfl
    simp [End.not_mem_word, noBlank, isControlLetter]
  obtain ⟨inside, -, later⟩ := Text.append_of_not_mem absent divided
  rcases List.append_eq_append_iff.1 later with ⟨more, -, closed⟩ | ⟨more, inName, closes⟩
  · cases more with
    | nil => simp at closed
    | cons closing more =>
      rw [(List.cons.inj closed).2]
      simp
  · -- The second one starts in the name, so its opening brace would be in the name too.
    cases more with
    | nil => simp at closes
    | cons escape more =>
      have free : '{' ∉ more := fun mem => flat.1 (by simp [inName, mem])
      have same : more ++ '}' :: after =
          (other.part.word ++ otherBlanks) ++ '{' :: (otherInner ++ '}' :: rest) := by
        simpa using (List.cons.inj closes).2.symm
      obtain ⟨left, inHead, leftCloses⟩ := Text.append_of_not_mem free same
      cases left with
      | nil => simp at leftCloses
      | cons closing left =>
        obtain rfl : '}' = closing := (List.cons.inj leftCloses).1
        have isBrace : '}' ∈ other.part.word ++ otherBlanks := by simp [inHead]
        rcases List.mem_append.1 isBrace with inWord | inBlanks
        · exact absurd inWord (End.not_mem_word other.part rfl)
        · exact absurd inBlanks (Text.not_mem_of_blank otherBlank rfl)

/-- The search for delimiters finds every place where one stands. -/
theorem delimiter_mem_occurrences {place : Text} {found : Delimiter}
    (read : delimiter.read place = some (found, rest)) (front : Text) :
    ⟨place, found, rest⟩ ∈ delimiter.occurrences (front ++ place) := by
  rcases Reader.mem_occurrences_or_passed read front with
    mem | ⟨earlier, mem, between, nonempty, same, passed⟩
  · exact mem
  · have readEarlier := ((delimiter.occurrences_ordered _).1 earlier mem).2
    rw [same] at readEarlier
    exact absurd passed (Nat.not_lt_of_le (delimiters_apart nonempty readEarlier read))

/-- The search for delimiters finds every literal tag. -/
theorem tag_mem_occurrences (flat : name.Flat) (front : Text) :
    ⟨part.tag name ++ rest, ⟨part, name.trim⟩, rest⟩ ∈
      delimiter.occurrences (front ++ (part.tag name ++ rest)) :=
  delimiter_mem_occurrences (delimiter_read_tag flat) front

end Environment
end TexStatements
