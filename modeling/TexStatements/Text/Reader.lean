import TexStatements.Text.Blank

/-!
# Readers

A reader recognizes one kind of thing at the front of a text and returns what it read with the
text after it. Every reader advances, so a text can be searched for all the places where a reader
succeeds: the leftmost first, and after each one only behind what was read. `Reader.occurrences`
lists these places and `Reader.replaceAll` replaces each of them.
-/
namespace TexStatements

/-- A recognizer of one kind of thing at the front of a text. -/
structure Reader (α : Type) where
  /-- Read one thing, returning the text after it. -/
  read : Text → Option (α × Text)
  /-- Something is consumed by every success, and nothing but a front of the text. -/
  advances : ∀ {text value rest}, read text = some (value, rest) → text.Advances rest

/-- A place where a reader succeeds. -/
structure Found (α : Type) where
  /-- The text from the place on. -/
  place : Text
  /-- What is read there. -/
  value : α
  /-- The text after it. -/
  rest : Text

namespace Reader

variable {α β : Type}

/-- All places where the reader succeeds, from left to right, none inside what was read before. -/
def occurrences (reader : Reader α) (text : Text) : List (Found α) :=
  match text with
  | [] => []
  | first :: tail =>
    match _ : reader.read (first :: tail) with
    | some (value, rest) => ⟨first :: tail, value, rest⟩ :: reader.occurrences rest
    | none => reader.occurrences tail
termination_by text.length
decreasing_by
  · rename_i read
    exact (reader.advances read).length_lt
  · simp

/-- Replace every place where the reader succeeds and keep the text between them. -/
def replaceAll (reader : Reader α) (replacement : α → Text) (text : Text) : Text :=
  match text with
  | [] => []
  | first :: tail =>
    match _ : reader.read (first :: tail) with
    | some (value, rest) => replacement value ++ reader.replaceAll replacement rest
    | none => first :: reader.replaceAll replacement tail
termination_by text.length
decreasing_by
  · rename_i read
    exact (reader.advances read).length_lt
  · simp

/-- The first place where the reader succeeds, with the text before it. -/
def find? (reader : Reader α) : Text → Option (Text × Found α)
  | [] => none
  | first :: tail =>
    match reader.read (first :: tail) with
    | some (value, rest) => some ([], ⟨first :: tail, value, rest⟩)
    | none => (reader.find? tail).map fun (front, found) => (first :: front, found)

/-- Whether the reader succeeds anywhere in a text. -/
def occursIn (reader : Reader α) (text : Text) : Bool := (reader.find? text).isSome

/-- A found place is behind the text before it, and what was read advances from it. -/
theorem find?_eq_some {reader : Reader α} {text front : Text} {found : Found α}
    (success : reader.find? text = some (front, found)) :
    text = front ++ found.place ∧ found.place.Advances found.rest := by
  induction text generalizing front with
  | nil => simp [find?] at success
  | cons first tail ih =>
    rw [find?] at success
    split at success
    · rename_i value rest read
      cases success
      exact ⟨rfl, reader.advances read⟩
    · simp only [Option.map_eq_some_iff, Prod.mk.injEq] at success
      obtain ⟨⟨inner, place⟩, inside, rfl, rfl⟩ := success
      obtain ⟨rfl, advances⟩ := ih inside
      exact ⟨rfl, advances⟩

/-- The reader of a nonempty fixed text. -/
def literal (expected : Text) (nonempty : expected ≠ []) : Reader Unit where
  read text := (Text.dropLiteral? expected text).map fun rest => ((), rest)
  advances := by
    intro text value rest success
    simp only [Option.map_eq_some_iff, Prod.mk.injEq] at success
    obtain ⟨tail, dropped, -, rfl⟩ := success
    rw [Text.dropLiteral?_eq_some_iff] at dropped
    cases expected with
    | nil => exact absurd rfl nonempty
    | cons first more =>
      exact ⟨first, more ++ tail, by simp [dropped], List.suffix_append more tail⟩

/-- Admit only some of the things read, possibly as something else. -/
def filterMap (reader : Reader α) (accept : α → Option β) : Reader β where
  read text := do
    let (value, rest) ← reader.read text
    let admitted ← accept value
    some (admitted, rest)
  advances := by
    intro text value rest success
    simp only [Option.bind_eq_bind, Option.bind_eq_some_iff, Option.some.injEq,
      Prod.mk.injEq] at success
    obtain ⟨⟨raw, tail⟩, read, -, -, -, rfl⟩ := success
    exact reader.advances read

/-- Read one thing and go on from what follows it with a step that may fail or read further. -/
def andThen (reader : Reader α) (next : α → Text → Option (β × Text))
    (suffix : ∀ {value text result rest}, next value text = some (result, rest) →
      rest <:+ text) : Reader β where
  read text := do
    let (value, rest) ← reader.read text
    next value rest
  advances := by
    intro text value rest success
    simp only [Option.bind_eq_bind, Option.bind_eq_some_iff] at success
    obtain ⟨⟨raw, tail⟩, read, further⟩ := success
    exact (reader.advances read).trans_suffix (suffix further)

end Reader

namespace Text

/-- Replace every occurrence of a nonempty fixed text. -/
def replaceAll (text expected replacement : Text) (nonempty : expected ≠ []) : Text :=
  (Reader.literal expected nonempty).replaceAll (fun _ => replacement) text

end Text

end TexStatements
