import TexStatements.Text.Reader

/-!
# Control sequences

A control sequence starts with a backslash. A control word is a maximal run of letters, where
`@` counts as a letter as it does in package internals; any other single character is a control
symbol. A keyword is a control word of a fixed set, read together with the character after it.
-/
namespace TexStatements

/-- Letters of a control word: those of ASCII and the commercial at sign. -/
def isControlLetter (c : Char) : Bool :=
  ('a' ≤ c && c ≤ 'z') || ('A' ≤ c && c ≤ 'Z') || c == '@'

namespace ControlSequence

/-- The name of a control sequence, read just after its backslash; none at the end of the text. -/
def name? : Text → Option (Text × Text)
  | [] => none
  | first :: rest =>
    if isControlLetter first then
      some (first :: rest.takeWhile isControlLetter, rest.dropWhile isControlLetter)
    else some ([first], rest)

/-- A name is a nonempty front of the text it is read from. -/
theorem name?_eq_append {text name rest : Text} (read : name? text = some (name, rest)) :
    text = name ++ rest ∧ name ≠ [] := by
  cases text with
  | nil => simp [name?] at read
  | cons first tail =>
    rw [name?] at read
    split at read
    · cases read
      simp [List.takeWhile_append_dropWhile]
    · cases read
      simp

/-- A control sequence at the front of a text: its name and the text after it. -/
def read? : Text → Option (Text × Text)
  | '\\' :: rest => name? rest
  | _ => none

/-- A control sequence is its backslash, its name and what follows. -/
theorem read?_eq_append {text name rest : Text} (read : read? text = some (name, rest)) :
    text = '\\' :: (name ++ rest) := by
  rw [read?.eq_def] at read
  split at read
  · rw [(name?_eq_append read).1]
  · simp at read

/-- Reading a control sequence advances. -/
theorem read?_advances {text name rest : Text} (read : read? text = some (name, rest)) :
    text.Advances rest :=
  ⟨'\\', name ++ rest, read?_eq_append read, List.suffix_append name rest⟩

/-- The reader of control sequences. -/
def reader : Reader Text := ⟨read?, read?_advances⟩

/-- Names of all control sequences, read from left to right. A backslash that ends the text
names none, and neither does one that another backslash has escaped. -/
def names (text : Text) : List Text := reader.occurrences text |>.map (·.value)

end ControlSequence

/-- Whether a control word that ends here is complete: no letter follows. -/
def endsControlWord (text : Text) : Bool :=
  match text with
  | [] => true
  | first :: _ => !isControlLetter first

/-- A control word of a fixed set. The text after it starts with a character that is no letter,
unless it is empty. -/
def controlWord (accepts : Text → Bool) : Reader Text where
  read
    | '\\' :: tail =>
      let word := tail.takeWhile isControlLetter
      if accepts word then some (word, tail.dropWhile isControlLetter) else none
    | _ => none
  advances := by
    intro text value rest success
    split at success
    · rename_i tail
      dsimp only at success
      split at success
      · cases success
        exact ⟨'\\', tail, rfl, List.dropWhile_suffix isControlLetter⟩
      · simp at success
    · simp at success

/-- A keyword as found in a text. -/
structure Keyword where
  /-- The control word, without its backslash. -/
  word : Text
  /-- The text just after the control word. -/
  after : Text

/-- The reader of keywords. The character after the control word is read with it, so a keyword
that follows another one directly is not found. -/
def keyword (accepts : Text → Bool) : Reader Keyword where
  read text := do
    let (word, after) ← (controlWord accepts).read text
    some (⟨word, after⟩, after.drop 1)
  advances := by
    intro text value rest success
    simp only [Option.bind_eq_bind, Option.bind_eq_some_iff, Option.some.injEq,
      Prod.mk.injEq] at success
    obtain ⟨⟨word, after⟩, read, -, rfl⟩ := success
    exact ((controlWord accepts).advances read).trans_suffix (List.drop_suffix 1 after)

end TexStatements
