import TexStatements.Proofs.Environment.Delimiter

/-!
# Literal spelling

A delimiter may be written with blanks before its brace and around its name. Bringing a text to the
literal spelling replaces each delimiter by its tag and keeps every other character; no delimiter
comes up that was not there, since one that goes on behind a replaced one would have to go through
its braces. So a fixed text finds in the result what had to be read in the original
(`literalDelimiters_complete`).
-/
namespace TexStatements
namespace Environment

variable {found : Delimiter} {text place rest : Text}

/-- The ways to write a delimiter: blanks may stand before the opening brace and around the name,
which has no brace and no blank at its ends. -/
def Delimiter.Spelling (found : Delimiter) (written : Text) : Prop :=
  found.name.Flat ∧ found.name.trim = found.name ∧ ∃ before lead trail : Text,
    (∀ c ∈ before ++ lead ++ trail, isBlank c = true) ∧
    written = '\\' :: (found.part.word ++ before ++ '{' :: (lead ++ found.name ++ trail ++ ['}']))

/-- A delimiter stands at a place, however it is written. -/
def Delimiter.StandsAt (found : Delimiter) (place : Text) : Prop :=
  ∃ written rest, found.Spelling written ∧ place = written ++ rest

/-- Texts that differ in nothing but the spelling of their delimiters, which is literal in the
second one. -/
inductive Respelled : Text → Text → Prop where
  /-- There are no characters. -/
  | nil : Respelled [] []
  /-- A character at which no delimiter stands is the same. -/
  | character {c : Char} {text literal : Text}
    (outside : ∀ found : Delimiter, ¬ found.StandsAt (c :: text))
    (behind : Respelled text literal) : Respelled (c :: text) (c :: literal)
  /-- A delimiter is its tag. -/
  | delimiter {found : Delimiter} {written text literal : Text} (spelling : found.Spelling written)
    (behind : Respelled text literal) : Respelled (written ++ text) (found.tag ++ literal)

/-- Blanks have no brace among them. -/
theorem flat_of_blank {blanks : Text} (blank : ∀ c ∈ blanks, isBlank c = true) : blanks.Flat :=
  ⟨Text.not_mem_of_blank blank rfl, Text.not_mem_of_blank blank rfl⟩

/-- What is read as a delimiter is a spelling of it. -/
theorem delimiter_read_iff : delimiter.read text = some (found, rest) ↔
    ∃ written, found.Spelling written ∧ text = written ++ rest := by
  rw [delimiter_read_eq_some_iff]
  constructor
  · rintro ⟨blanks, inner, blank, flat, named, rfl⟩
    obtain ⟨lead, trail, whole, before, behind⟩ := inner.exists_trim
    rw [← named] at whole
    subst whole
    refine ⟨_, ⟨⟨fun mem => flat.1 (by simp [mem]), fun mem => flat.2 (by simp [mem])⟩, ?_,
      blanks, lead, trail, ?_, rfl⟩, by simp⟩
    · rw [Text.trim_append before behind] at named
      exact named.symm
    · simp only [List.forall_mem_append]
      exact ⟨⟨blank, before⟩, behind⟩
  · rintro ⟨written, ⟨flat, trimmed, blanks, lead, trail, blank, rfl⟩, rfl⟩
    simp only [List.forall_mem_append] at blank
    obtain ⟨⟨blank, before⟩, behind⟩ := blank
    have inner : (lead ++ found.name ++ trail).Flat := by
      simp [Text.Flat, (flat_of_blank before).1, (flat_of_blank before).2, flat.1, flat.2,
        (flat_of_blank behind).1, (flat_of_blank behind).2]
    refine ⟨blanks, lead ++ found.name ++ trail, blank, inner, ?_, by simp⟩
    rw [Text.trim_append before behind, trimmed]

/-- A delimiter starts with a backslash. -/
theorem Delimiter.Spelling.exists_eq_cons {written : Text} (spelling : found.Spelling written) :
    ∃ front, written = '\\' :: front := by
  obtain ⟨-, -, before, lead, trail, -, rfl⟩ := spelling
  exact ⟨_, rfl⟩

/-- A tag is a spelling of its delimiter. -/
theorem Delimiter.spelling_tag (flat : found.name.Flat) (trimmed : found.name.trim = found.name) :
    found.Spelling found.tag :=
  ⟨flat, trimmed, [], [], [], by simp, by simp [Delimiter.tag, End.tag]⟩

/-- A delimiter that is read is read again from its tag. -/
theorem delimiter_read_of_tag (read : delimiter.read text = some (found, place)) (rest : Text) :
    delimiter.read (found.tag ++ rest) = some (found, rest) := by
  obtain ⟨written, ⟨flat, trimmed, -⟩, -⟩ := delimiter_read_iff.1 read
  exact delimiter_read_iff.2 ⟨found.tag, Delimiter.spelling_tag flat trimmed, rfl⟩

/-- A delimiter is replaced by its tag. -/
theorem literalDelimiters_of_read (read : delimiter.read text = some (found, rest)) :
    literalDelimiters text = found.tag ++ literalDelimiters rest :=
  Reader.replaceAll_of_read Delimiter.tag read

/-- A character at which no delimiter is read is kept. -/
theorem literalDelimiters_of_unread {first : Char} {tail : Text}
    (unread : delimiter.read (first :: tail) = none) :
    literalDelimiters (first :: tail) = first :: literalDelimiters tail :=
  Reader.replaceAll_of_unread Delimiter.tag unread

/-- Where a front of the result has no tag in it, it is the front of the original. -/
theorem exists_front_of_literalDelimiters {front after : Text}
    (same : literalDelimiters text = front ++ after)
    (free : ∀ between rest, front ++ after = between ++ rest →
      (delimiter.read rest).isSome = true → front.length ≤ between.length) :
    ∃ rest, text = front ++ rest ∧ literalDelimiters rest = after := by
  induction front generalizing text with
  | nil => exact ⟨text, rfl, same⟩
  | cons c front ih =>
    cases text with
    | nil => simp [literalDelimiters, Reader.replaceAll] at same
    | cons first tail =>
      cases read : delimiter.read (first :: tail) with
      | some result =>
        -- The result would start with a tag.
        have starts := same.symm.trans (literalDelimiters_of_read read)
        have isRead := delimiter_read_of_tag read (literalDelimiters result.2)
        cases free [] _ starts (Option.isSome_of_eq_some isRead)
      | none =>
        rw [literalDelimiters_of_unread read] at same
        obtain ⟨rfl, later⟩ := List.cons.inj same
        obtain ⟨rest, rfl, behind⟩ := ih later fun between rest split isRead => by
          have further := free (first :: between) rest (by simp [← split]) isRead
          simpa using further
        exact ⟨rest, rfl, behind⟩

/-- Where no delimiter is read, none is read when those behind are literal. -/
theorem delimiter_read_literal_of_unread {first : Char} {tail : Text}
    (unread : delimiter.read (first :: tail) = none) :
    delimiter.read (first :: literalDelimiters tail) = none := by
  rw [Option.eq_none_iff_forall_ne_some]
  rintro ⟨found, after⟩ read
  obtain ⟨written, spelling, whole⟩ := delimiter_read_iff.1 read
  obtain ⟨front, rfl⟩ := spelling.exists_eq_cons
  obtain ⟨rfl, behind⟩ := List.cons.inj whole
  -- No delimiter starts in what is read, so that it was there before.
  have free : ∀ between rest, front ++ after = between ++ rest →
      (delimiter.read rest).isSome = true → front.length ≤ between.length := by
    intro between rest split isRead
    obtain ⟨⟨other, last⟩, starts⟩ := Option.isSome_iff_exists.1 isRead
    rw [whole, List.cons_append, split, ← List.cons_append] at read
    have apart := delimiters_apart (List.cons_ne_nil _ between) read starts
    have sizes := congrArg List.length split
    simp only [List.length_append] at sizes
    omega
  obtain ⟨rest, rfl, -⟩ := exists_front_of_literalDelimiters behind free
  have again : delimiter.read ('\\' :: (front ++ rest)) = some (found, rest) :=
    delimiter_read_iff.2 ⟨_, spelling, rfl⟩
  rw [unread] at again
  cases again

section Pass

variable (text : Text)

/-- Bringing a text to the literal spelling twice is doing it once. -/
theorem literalDelimiters_twice :
    literalDelimiters (literalDelimiters text) = literalDelimiters text := by
  fun_induction delimiter.occurrences text with
  | case1 => simp [literalDelimiters, Reader.replaceAll]
  | case2 first tail found rest read ih =>
    rw [literalDelimiters_of_read read,
      literalDelimiters_of_read (delimiter_read_of_tag read _), ih]
  | case3 first tail unread ih =>
    rw [literalDelimiters_of_unread unread,
      literalDelimiters_of_unread (delimiter_read_literal_of_unread unread), ih]

/-- The delimiters of the result are those of the text, in order, each with the rest of the text
behind it in the literal spelling. -/
theorem occurrences_literalDelimiters : delimiter.occurrences (literalDelimiters text) =
    (delimiter.occurrences text).map fun found =>
      ⟨literalDelimiters found.place, found.value, literalDelimiters found.rest⟩ := by
  fun_induction delimiter.occurrences text with
  | case1 => simp [literalDelimiters, Reader.replaceAll, Reader.occurrences]
  | case2 first tail found rest read ih =>
    have again := delimiter_read_of_tag read (literalDelimiters rest)
    rw [List.map_cons, ← ih, literalDelimiters_of_read read, Reader.occurrences_of_read again]
  | case3 first tail unread ih =>
    have passed : delimiter.SilentOver [first] (literalDelimiters tail) :=
      Reader.silentOver_cons.2
        ⟨delimiter_read_literal_of_unread unread, Reader.silentOver_nil _ _⟩
    rw [literalDelimiters_of_unread unread, ← ih]
    exact Reader.occurrences_append passed

/-- A text differs from its literal spelling in nothing but the spelling of its delimiters. -/
theorem respelled_literalDelimiters : Respelled text (literalDelimiters text) := by
  fun_induction delimiter.occurrences text with
  | case1 =>
    rw [literalDelimiters, Reader.replaceAll]
    exact .nil
  | case2 first tail found rest read ih =>
    rw [literalDelimiters_of_read read]
    obtain ⟨written, spelling, whole⟩ := delimiter_read_iff.1 read
    rw [whole]
    exact .delimiter spelling ih
  | case3 first tail unread ih =>
    rw [literalDelimiters_of_unread unread]
    refine .character ?_ ih
    rintro found ⟨written, rest, spelling, whole⟩
    rw [delimiter_read_iff.2 ⟨written, spelling, whole⟩] at unread
    cases unread

end Pass

/-- However a delimiter is written in the literal spelling of a text, it is its tag. -/
theorem spelling_eq_tag {written : Text} (spelling : found.Spelling written)
    (stands : written ++ rest <:+ literalDelimiters text) : written = found.tag := by
  obtain ⟨front, whole⟩ := stands
  have stands : delimiter.read (written ++ rest) = some (found, rest) :=
    delimiter_read_iff.2 ⟨written, spelling, rfl⟩
  have mem := delimiter_mem_occurrences stands front
  rw [whole, occurrences_literalDelimiters] at mem
  obtain ⟨original, isOriginal, same⟩ := List.mem_map.1 mem
  have read := ((delimiter.occurrences_ordered text).1 original isOriginal).2
  rw [Found.mk.injEq, literalDelimiters_of_read read] at same
  obtain ⟨isPlace, rfl, rfl⟩ := same
  exact (List.append_cancel_right isPlace).symm

/-- The places of a text at which a delimiter stands, in order. -/
def placesOf (found : Delimiter) (text : Text) : List Text :=
  ((delimiter.occurrences text).filter (·.value = found)).map (·.place)

/-- They are all such places. -/
theorem mem_placesOf_iff : place ∈ placesOf found text ↔ place <:+ text ∧ found.StandsAt place := by
  simp only [placesOf, List.mem_map, List.mem_filter, decide_eq_true_eq]
  constructor
  · rintro ⟨here, ⟨mem, rfl⟩, rfl⟩
    obtain ⟨suffix, read⟩ := (delimiter.occurrences_ordered text).1 here mem
    obtain ⟨written, spelling, whole⟩ := delimiter_read_iff.1 read
    exact ⟨suffix, written, here.rest, spelling, whole⟩
  · rintro ⟨⟨front, rfl⟩, written, rest, spelling, whole⟩
    have read := delimiter_read_iff.2 ⟨written, spelling, whole⟩
    exact ⟨_, ⟨delimiter_mem_occurrences read front, rfl⟩, rfl⟩

/-- They are in order: from each of them on there is less left of the text. -/
theorem placesOf_ordered (found : Delimiter) (text : Text) :
    (placesOf found text).Pairwise fun earlier later => later.length < earlier.length := by
  obtain ⟨places, ordered⟩ := delimiter.occurrences_ordered text
  refine List.pairwise_map.2 ((ordered.imp_of_mem ?_).filter _)
  intro earlier later mem _ behind
  exact Nat.lt_of_le_of_lt behind.length_le (delimiter.advances (places earlier mem).2).length_lt

/-- In the literal spelling a delimiter stands where it did, with the rest of the text behind. -/
theorem placesOf_literalDelimiters (found : Delimiter) (text : Text) :
    placesOf found (literalDelimiters text) = (placesOf found text).map literalDelimiters := by
  rw [placesOf, placesOf, occurrences_literalDelimiters, List.filter_map, List.map_map,
    List.map_map]
  rfl

/-- In the literal spelling a delimiter stands where its tag does. -/
theorem standsAt_iff_prefix (flat : found.name.Flat) (trimmed : found.name.trim = found.name)
    (suffix : place <:+ literalDelimiters text) : found.StandsAt place ↔ found.tag <+: place := by
  constructor
  · rintro ⟨written, rest, spelling, rfl⟩
    rw [spelling_eq_tag spelling suffix]
    exact List.prefix_append _ _
  · rintro ⟨rest, rfl⟩
    exact ⟨found.tag, rest, found.spelling_tag flat trimmed, rfl⟩

/-- Bringing a text to the literal spelling changes nothing but the spelling of its delimiters, and
nothing at all when done again. Every delimiter of the result is its tag. And for each name without
braces or blanks at its ends, the places where its tag stands in the result are, one for one and in
order, those where the delimiter stands in the text: each place comes with what follows it there,
brought to the literal spelling. -/
theorem literalDelimiters_complete (text : Text) :
    literalDelimiters (literalDelimiters text) = literalDelimiters text ∧
    Respelled text (literalDelimiters text) ∧
    (∀ (found : Delimiter) (written rest : Text), found.Spelling written →
      written ++ rest <:+ literalDelimiters text → written = found.tag) ∧
    ∀ (part : End) (name : Text), name.Flat → name.trim = name → ∃ places : List Text,
      (∀ place, place ∈ places ↔ place <:+ text ∧ Delimiter.StandsAt ⟨part, name⟩ place) ∧
      places.Pairwise (fun earlier later => later.length < earlier.length) ∧
      (∀ place, place ∈ places.map literalDelimiters ↔
        place <:+ literalDelimiters text ∧ part.tag name <+: place) ∧
      (places.map literalDelimiters).Pairwise fun earlier later =>
        later.length < earlier.length := by
  refine ⟨literalDelimiters_twice text, respelled_literalDelimiters text,
    fun found written rest => spelling_eq_tag, fun part name flat trimmed => ?_⟩
  refine ⟨placesOf ⟨part, name⟩ text, fun place => mem_placesOf_iff, placesOf_ordered _ _, ?_, ?_⟩
  · intro place
    rw [← placesOf_literalDelimiters, mem_placesOf_iff]
    exact and_congr_right fun suffix => standsAt_iff_prefix flat trimmed suffix
  · rw [← placesOf_literalDelimiters]
    exact placesOf_ordered _ _

/-- Delimiters with blanks in them, one of them with a command for its name. -/
def spacedDelimiters : Text :=
  ("\\begin \x7b\\begin \x7d\\begin\x7b a b\x7d\\end\t\x7b a b \x7d" ++
    "\\begin\n\x7ba b \x7dx").toList

/-- The name that is a command hides neither of the opening delimiters behind it, and the last one
is found by its tag. -/
theorem literalDelimiters_complete_spaced :
    literalDelimiters spacedDelimiters =
      ("\\begin\x7b\\begin\x7d\\begin\x7ba b\x7d\\end\x7ba b\x7d" ++
        "\\begin\x7ba b\x7dx").toList ∧
    Text.Flat "a b".toList ∧ Text.trim "a b".toList = "a b".toList ∧
    ∃ place, place <:+ spacedDelimiters ∧
      Delimiter.StandsAt ⟨.opening, "a b".toList⟩ place ∧
      literalDelimiters place = "\\begin\x7ba b\x7dx".toList := by
  have literal : literalDelimiters spacedDelimiters =
      ("\\begin\x7b\\begin\x7d\\begin\x7ba b\x7d\\end\x7ba b\x7d" ++
        "\\begin\x7ba b\x7dx").toList := by decide +kernel
  obtain ⟨-, -, -, all⟩ := literalDelimiters_complete spacedDelimiters
  obtain ⟨places, stands, -, tags, -⟩ := all .opening "a b".toList (by decide) (by decide)
  have last : "\\begin\x7ba b\x7dx".toList <:+ literalDelimiters spacedDelimiters := by
    rw [literal]
    decide +kernel
  obtain ⟨place, isPlace, same⟩ := List.mem_map.1 ((tags _).2 ⟨last, by decide +kernel⟩)
  exact ⟨literal, by decide, by decide, place, ((stands place).1 isPlace).1,
    ((stands place).1 isPlace).2, same⟩

end Environment
end TexStatements
