import TexStatements.Proofs.Macro.DefinitionSlices

/-!
# Collection by slices

The definitions of a family are collected here by offset: the control word of each, what is copied
in front of it and what is shown of one that is never closed are slices. All these slices can be
taken, and what is collected is what is collected from place to place (`collectBySlices_eq`).
-/
namespace TexStatements

/-- A keyword is its backslash and its control word. -/
theorem keyword_eq_append {accepts : Text → Bool} {place rest : Text} {found : Keyword}
    (read : (keyword accepts).read place = some (found, rest)) :
    place = '\\' :: (found.word ++ found.after) := by
  simp only [keyword, controlWord, Option.bind_eq_bind, Option.bind_eq_some_iff, Option.some.injEq,
    Prod.mk.injEq] at read
  obtain ⟨⟨word, after⟩, isWord, rfl, -⟩ := read
  split at isWord
  · split at isWord
    · cases isWord
      rw [List.takeWhile_append_dropWhile]
    · cases isWord
  · cases isWord

/-- What a collection pass has come to, by offset. -/
structure CollectionByOffset where
  /-- Offset of the text that is not yet decided about. -/
  pending : Nat
  /-- What was copied, in pieces from last to first. -/
  copied : List Text
  /-- The macros so far. -/
  table : MacroTable
  /-- The warnings so far, from last to first. -/
  warnings : List Warning

namespace CollectionByOffset

/-- What a pass from place to place has come to, by offset. -/
def ofCollection (text : Text) (state : Collection) : CollectionByOffset :=
  ⟨text.offsetOf state.pending, state.copied, state.table, state.warnings⟩

/-- Go on to a keyword between two offsets. A keyword inside a definition that is already removed
does not count. -/
def step (family : DefinitionFamily) (text : Text) (state : CollectionByOffset)
    (start wordEnd : Nat) : Sliced CollectionByOffset :=
  if start < state.pending then return state
  else do
    let word ← text.sliceBetween (start + 1) wordEnd
    match ← DefinitionSpan.behindWord family text word wordEnd with
    | .absent => return state
    | .unterminated => do
      let behind ← text.sliceFrom start
      return { state with warnings := .unclosedMacro behind.excerpt :: state.warnings }
    | .found definition stop => do
      let front ← text.sliceBetween state.pending start
      return { state with
        pending := stop
        copied := front :: state.copied
        table :=
          if Collection.yields word state.table definition then state.table
          else state.table.define definition }

variable {text : Text} {state : Collection} {found : Found Keyword} {accepts : Text → Bool}

/-- Going on to a keyword by offset is going on to it at its place. -/
theorem step_offsetOf (family : DefinitionFamily) (pending : state.pending <:+ text)
    (place : found.place <:+ text)
    (read : (keyword accepts).read found.place = some (found.value, found.rest)) :
    step family text (ofCollection text state) (text.offsetOf found.place)
        (text.offsetOf found.value.after) =
      .ok (ofCollection text (Collection.step family state found)) := by
  have whole := keyword_eq_append read
  by_cases inside : state.pending.length < found.place.length
  · have before := (Text.offsetOf_lt_iff place pending).2 inside
    rw [step, Collection.step, if_pos inside, ofCollection, if_pos before]
    rfl
  have undecided : ¬text.offsetOf found.place < text.offsetOf state.pending := fun before =>
    inside ((Text.offsetOf_lt_iff place pending).1 before)
  have within : found.place <:+ state.pending :=
    List.suffix_of_suffix_length_le place pending (Nat.not_lt.1 inside)
  have spelled : '\\' :: (found.value.word ++ found.value.after) <:+ text := whole ▸ place
  have behind := (List.suffix_cons '\\' _).trans spelled
  have one : Char.utf8Size '\\' = 1 := rfl
  have word := Text.sliceBetween_append behind
  rw [Text.offsetOf_tail spelled, one, ← whole] at word
  have after : found.value.after <:+ text := (List.suffix_append _ _).trans behind
  have reading := DefinitionSpan.behindWord_offsetOf family found.value.word after
  rw [step, Collection.step, if_neg inside, ofCollection, if_neg undecided]
  simp only [word, Sliced.ok_bind, reading, Text.sliceFrom_offsetOf place,
    Text.sliceBetween_offsetOf pending within]
  cases DefinitionReading.ofKeyword family found.value with
  | absent => rfl
  | unterminated => rfl
  | found definition rest => rfl

/-- What is not yet decided about stays a place of the text. -/
theorem pending_step_suffix (family : DefinitionFamily) (pending : state.pending <:+ text)
    (place : found.place <:+ text)
    (read : (keyword accepts).read found.place = some (found.value, found.rest)) :
    (Collection.step family state found).pending <:+ text := by
  have spelled : '\\' :: (found.value.word ++ found.value.after) <:+ text :=
    keyword_eq_append read ▸ place
  have after := (List.suffix_append found.value.word found.value.after).trans
    ((List.suffix_cons '\\' _).trans spelled)
  have ends := DefinitionReading.ofKeyword_endsBehind family found.value
  rw [Collection.step]
  split
  · exact pending
  · cases reading : DefinitionReading.ofKeyword family found.value with
    | absent => exact pending
    | unterminated => exact pending
    | found definition rest =>
      rw [reading] at ends
      exact ends.trans after

/-- Going on to keywords by offset, one after another, is going on to them at their places. -/
theorem foldlM_step_offsetOf (family : DefinitionFamily) (founds : List (Found Keyword))
    (state : Collection)
    (places : ∀ found ∈ founds, found.place <:+ text ∧
      (keyword accepts).read found.place = some (found.value, found.rest))
    (pending : state.pending <:+ text) :
    founds.foldlM (fun state found => step family text state (text.offsetOf found.place)
        (text.offsetOf found.value.after)) (ofCollection text state) =
      .ok (ofCollection text (founds.foldl (Collection.step family) state)) ∧
    (founds.foldl (Collection.step family) state).pending <:+ text := by
  induction founds generalizing state with
  | nil => exact ⟨rfl, pending⟩
  | cons found founds ih =>
    obtain ⟨⟨place, read⟩, later⟩ := List.forall_mem_cons.1 places
    rw [List.foldlM_cons, step_offsetOf family pending place read, Sliced.ok_bind]
    exact ih _ later (pending_step_suffix family pending place read)

end CollectionByOffset

namespace MacroTable

/-- Collect the definitions of a family into a table by slices. -/
def collectBySlices (table : MacroTable) (family : DefinitionFamily) (text : Text) :
    Sliced (Text × MacroTable × List Warning) := do
  let found := (keyword family.words.contains).occurrences text
  let final ← found.foldlM (fun state found => CollectionByOffset.step family text state
    (text.offsetOf found.place) (text.offsetOf found.value.after)) ⟨0, [], table, []⟩
  let rest ← text.sliceFrom final.pending
  return (final.copied.reverse.flatten ++ rest, final.table, final.warnings.reverse)

/-- Collecting by slices is collecting, so every slice that it needs can be taken. -/
theorem collectBySlices_eq (table : MacroTable) (family : DefinitionFamily) (text : Text) :
    collectBySlices table family text = .ok (table.collect family text) := by
  have places := ((keyword family.words.contains).occurrences_ordered text).1
  have start : (⟨0, [], table, []⟩ : CollectionByOffset) =
      .ofCollection text ⟨text, [], table, []⟩ := by
    rw [CollectionByOffset.ofCollection, Text.offsetOf_self]
  obtain ⟨steps, pending⟩ := CollectionByOffset.foldlM_step_offsetOf family
    ((keyword family.words.contains).occurrences text) ⟨text, [], table, []⟩ places
    (List.suffix_refl text)
  rw [collectBySlices, start, steps]
  simp only [Sliced.ok_bind, CollectionByOffset.ofCollection, Text.sliceFrom_offsetOf pending]
  rfl

end MacroTable
end TexStatements
