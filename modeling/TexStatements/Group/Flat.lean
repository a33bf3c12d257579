import TexStatements.Text.Reader

/-!
# Flat groups

Environment names, counter names and file names are given in braces that contain no brace of
their own. Blanks may stand before the opening brace, and those around a name are not part of it.
-/
namespace TexStatements

/-- A flat group behind blanks: its inside, without a brace, and the text after it. -/
def flatGroup? (text : Text) : Option (Text × Text) :=
  match text.trimStart with
  | '{' :: tail =>
    match tail.dropWhile fun c => c != '{' && c != '}' with
    | '}' :: rest => some (tail.takeWhile fun c => c != '{' && c != '}', rest)
    | _ => none
  | _ => none

/-- A flat group is the blanks before it, its inside in braces and the text after it. -/
theorem flatGroup?_eq_append {text inner rest : Text}
    (read : flatGroup? text = some (inner, rest)) :
    text.trimStart = '{' :: (inner ++ '}' :: rest) := by
  unfold flatGroup? at read
  split at read
  · rename_i tail opened
    split at read
    · rename_i after dropped
      cases read
      rw [opened, ← dropped, List.takeWhile_append_dropWhile]
    · simp at read
  · simp at read

/-- The text after a flat group is a suffix. -/
theorem flatGroup?_suffix {text inner rest : Text}
    (read : flatGroup? text = some (inner, rest)) : rest <:+ text := by
  have whole := flatGroup?_eq_append read
  have behind : rest <:+ '{' :: (inner ++ '}' :: rest) :=
    ((List.suffix_cons _ rest).trans (List.suffix_append inner _)).trans (List.suffix_cons _ _)
  rw [← whole] at behind
  exact behind.trans (Text.trimStart_suffix text)

/-- Read a flat group after something else, admitting only some insides. -/
def Reader.thenFlatGroup {α β : Type} (reader : Reader α) (accept : α → Text → Option β) :
    Reader β :=
  reader.andThen
    (fun value text =>
      match flatGroup? text with
      | some (inner, rest) => (accept value inner).map fun result => (result, rest)
      | none => none)
    (by
      intro value text result rest success
      split at success
      · rename_i inner after read
        simp only [Option.map_eq_some_iff, Prod.mk.injEq] at success
        obtain ⟨admitted, -, -, rfl⟩ := success
        exact flatGroup?_suffix read
      · simp at success)

end TexStatements
