import Mathlib.Data.List.Chain
import TexStatements.Proofs.Text.Search

/-!
# Texts as rows of tokens

A text is read from left to right as a row of tokens: control sequences, and the characters that
belong to none. Spelling the row out gives the text back. The other way round a row need not be
what its spelling is read as: a letter behind a control word is read as part of the word, and a
lone backslash takes the character behind it. `Token.Legible` says that neither happens, and then
a row is read back.
-/
namespace TexStatements

/-- A control word is complete where no letter follows. -/
theorem endsControlWord_iff {text : Text} :
    endsControlWord text = true ↔ ∀ first ∈ text.head?, isControlLetter first = false := by
  cases text <;> simp [endsControlWord]

/-- No letter follows the letters that are read. -/
theorem endsControlWord_dropWhile (text : Text) :
    endsControlWord (text.dropWhile isControlLetter) = true := by
  rw [endsControlWord_iff]
  intro c isFirst
  have stop := List.head?_dropWhile_not isControlLetter text
  rw [Option.mem_def.1 isFirst] at stop
  simpa using stop

namespace ControlSequence

/-- The name of a control word: letters, and at least one. -/
def IsWord (name : Text) : Prop :=
  name ≠ [] ∧ ∀ letter ∈ name, isControlLetter letter = true

/-- The name of a control symbol: one character that is no letter. -/
def IsSymbol (name : Text) : Prop := ∃ c, isControlLetter c = false ∧ name = [c]

/-- What is read as the name of a control sequence. -/
def IsName (name : Text) : Prop := IsWord name ∨ IsSymbol name

instance (name : Text) : Decidable (IsWord name) :=
  inferInstanceAs (Decidable (name ≠ [] ∧ ∀ letter ∈ name, isControlLetter letter = true))

/-- A control word is no control symbol. -/
theorem IsSymbol.not_isWord {name : Text} (symbol : IsSymbol name) : ¬IsWord name := by
  obtain ⟨c, other, rfl⟩ := symbol
  intro word
  have letter := word.2 c (List.mem_singleton_self c)
  rw [other] at letter
  cases letter

/-- A name is not empty. -/
theorem IsName.ne_nil {name : Text} (valid : IsName name) : name ≠ [] := by
  rcases valid with word | ⟨c, -, rfl⟩
  · exact word.1
  · exact List.cons_ne_nil c []

/-- A control sequence is read as it is written if no letter continues a word. -/
theorem read?_append {name rest : Text} (valid : IsName name)
    (ends : IsWord name → endsControlWord rest = true) :
    read? ('\\' :: (name ++ rest)) = some (name, rest) := by
  rcases valid with word | ⟨c, other, rfl⟩
  · have stops := endsControlWord_iff.1 (ends word)
    cases name with
    | nil => exact absurd rfl word.1
    | cons first more =>
      have letter := word.2 first (List.mem_cons_self ..)
      have letters : ∀ c ∈ more, isControlLetter c = true := fun c mem =>
        word.2 c (List.mem_cons_of_mem _ mem)
      rw [read?, List.cons_append, name?, if_pos letter, takeWhile_run letters stops,
        dropWhile_run letters stops]
  · simp [read?, name?, other]

/-- What is read is a name, and no letter continues it if it is a word. -/
theorem read?_valid {text name rest : Text} (read : read? text = some (name, rest)) :
    IsName name ∧ (IsWord name → endsControlWord rest = true) := by
  have whole := read?_eq_append read
  subst whole
  cases run : name ++ rest with
  | nil =>
    rw [run] at read
    cases read
  | cons first tail =>
    rw [run, read?, name?] at read
    by_cases letter : isControlLetter first = true
    · rw [if_pos letter] at read
      cases read
      refine ⟨.inl ⟨List.cons_ne_nil _ _, ?_⟩, fun _ => endsControlWord_dropWhile tail⟩
      intro c mem
      rcases List.mem_cons.1 mem with rfl | inside
      · exact letter
      · exact List.all_eq_true.1 List.all_takeWhile c inside
    · rw [if_neg letter] at read
      cases read
      have symbol : IsSymbol [first] := ⟨first, by simpa using letter, rfl⟩
      exact ⟨.inr symbol, fun word => absurd word symbol.not_isWord⟩

/-- Nothing is read at a character that is no backslash, nor at a backslash that ends the text. -/
theorem read?_eq_none_iff {first : Char} {tail : Text} :
    read? (first :: tail) = none ↔ (first = '\\' → tail = []) := by
  by_cases same : first = '\\'
  · subst same
    cases tail with
    | nil => simp [read?, name?]
    | cons next rest =>
      rw [read?, name?]
      split <;> simp
  · simp [read?, same]

/-- The empty text has no control sequences. -/
theorem names_nil : names [] = [] := by simp [names, Reader.occurrences]

/-- A character at which none starts brings no control sequence. -/
theorem names_of_character {first : Char} {tail : Text} (plain : first = '\\' → tail = []) :
    names (first :: tail) = names tail := by
  have passed : reader.SilentOver [first] tail :=
    Reader.silentOver_cons.2 ⟨read?_eq_none_iff.2 plain, Reader.silentOver_nil reader tail⟩
  have same := Reader.occurrences_append passed
  rw [List.singleton_append] at same
  rw [names, names, same]

/-- A text without a backslash has no control sequences. -/
theorem names_of_not_mem {text : Text} (free : '\\' ∉ text) : names text = [] := by
  induction text with
  | nil => exact names_nil
  | cons first tail ih =>
    rw [List.mem_cons, not_or] at free
    rw [names_of_character fun same => absurd same.symm free.1, ih free.2]

/-- A control sequence is the first of its text. -/
theorem names_of_sequence {name rest : Text} (valid : IsName name)
    (ends : IsWord name → endsControlWord rest = true) :
    names ('\\' :: (name ++ rest)) = name :: names rest := by
  have read : reader.read ('\\' :: (name ++ rest)) = some (name, rest) := read?_append valid ends
  rw [names, names, Reader.occurrences_of_read read, List.map_cons]

end ControlSequence

open ControlSequence

/-- Whatever holds of the empty text, and goes over to a text from what follows its first token,
holds of every text. -/
@[elab_as_elim]
theorem Text.token_induction {motive : Text → Prop} (nil : motive [])
    (character : ∀ first tail, (first = '\\' → tail = []) → motive tail → motive (first :: tail))
    (sequence : ∀ name rest, IsName name → (IsWord name → endsControlWord rest = true) →
      motive rest → motive ('\\' :: (name ++ rest))) (text : Text) : motive text := by
  induction size : text.length using Nat.strongRecOn generalizing text with
  | ind length ih =>
    subst size
    cases text with
    | nil => exact nil
    | cons first tail =>
      cases read : read? (first :: tail) with
      | none =>
        exact character first tail (read?_eq_none_iff.1 read) (ih _ (Nat.lt_succ_self _) tail rfl)
      | some found =>
        obtain ⟨name, rest⟩ := found
        obtain ⟨valid, ends⟩ := read?_valid read
        have shorter := (read?_advances read).length_lt
        rw [read?_eq_append read]
        exact sequence name rest valid ends (ih _ shorter rest rfl)

/-- A token of a text. -/
inductive Token where
  /-- A character that belongs to no control sequence. -/
  | character (c : Char)
  /-- A control sequence, by its name. -/
  | sequence (name : Text)
deriving DecidableEq

namespace Token

/-- The source of a token. -/
def text : Token → Text
  | character c => [c]
  | sequence name => '\\' :: name

/-- The name of a control sequence. -/
def name? : Token → Option Text
  | character _ => none
  | sequence name => some name

/-- The text of a row of tokens. -/
def spell (row : List Token) : Text := row.flatMap text

/-- The names of the control sequences in a row, from left to right. -/
def names (row : List Token) : List Text := row.filterMap name?

/-- The tokens of a text. -/
def ofText (text : Text) : List Token :=
  match text with
  | [] => []
  | first :: tail =>
    match _ : read? (first :: tail) with
    | some (name, rest) => sequence name :: ofText rest
    | none => character first :: ofText tail
termination_by text.length
decreasing_by
  · rename_i read
    exact (read?_advances read).length_lt
  · simp

/-- No tokens spell an empty text. -/
@[simp] theorem spell_nil : spell [] = [] := rfl

/-- A character is spelled as itself. -/
@[simp] theorem spell_character (c : Char) (row : List Token) :
    spell (character c :: row) = c :: spell row := rfl

/-- A control sequence is spelled with its backslash. -/
@[simp] theorem spell_sequence (name : Text) (row : List Token) :
    spell (sequence name :: row) = '\\' :: (name ++ spell row) := rfl

/-- Two rows are spelled one after the other. -/
@[simp] theorem spell_append (front row : List Token) :
    spell (front ++ row) = spell front ++ spell row := List.flatMap_append

/-- No tokens have no names. -/
@[simp] theorem names_nil : names [] = [] := rfl

/-- A character has no name. -/
@[simp] theorem names_character (c : Char) (row : List Token) :
    names (character c :: row) = names row := rfl

/-- The name of a control sequence comes first. -/
@[simp] theorem names_sequence (name : Text) (row : List Token) :
    names (sequence name :: row) = name :: names row := rfl

/-- The names of two rows come one after the other. -/
@[simp] theorem names_append (front row : List Token) :
    names (front ++ row) = names front ++ names row := List.filterMap_append

/-- An empty text has no tokens. -/
@[simp] theorem ofText_nil : ofText [] = [] := by rw [ofText]

/-- A character at which no control sequence starts is a token. -/
theorem ofText_character {first : Char} {tail : Text} (plain : first = '\\' → tail = []) :
    ofText (first :: tail) = character first :: ofText tail := by
  rw [ofText]
  split
  · rename_i read
    rw [read?_eq_none_iff.2 plain] at read
    cases read
  · rfl

/-- A control sequence is a token. -/
theorem ofText_sequence {name rest : Text} (valid : IsName name)
    (ends : IsWord name → endsControlWord rest = true) :
    ofText ('\\' :: (name ++ rest)) = sequence name :: ofText rest := by
  have written := read?_append valid ends
  rw [ofText]
  split
  · rename_i read
    rw [written] at read
    cases read
    rfl
  · rename_i read
    rw [written] at read
    cases read

/-- The tokens of a text spell it. -/
@[simp] theorem spell_ofText (text : Text) : spell (ofText text) = text := by
  induction text using Text.token_induction with
  | nil => simp
  | character first tail plain ih => rw [ofText_character plain, spell_character, ih]
  | sequence name rest valid ends ih => rw [ofText_sequence valid ends, spell_sequence, ih]

/-- The control sequences among the tokens of a text are those that are read from it. -/
theorem names_ofText (text : Text) : names (ofText text) = ControlSequence.names text := by
  induction text using Text.token_induction with
  | nil => rw [ofText_nil, names_nil, ControlSequence.names_nil]
  | character first tail plain ih =>
    rw [ofText_character plain, names_character, ih, ControlSequence.names_of_character plain]
  | sequence name rest valid ends ih =>
    rw [ofText_sequence valid ends, names_sequence, ih,
      ControlSequence.names_of_sequence valid ends]

/-- Two tokens may stand side by side unless a letter continues a control word. -/
def Apart (left right : Token) : Prop :=
  ∀ name c, left = sequence name → right = character c → IsWord name → isControlLetter c = false

/-- A row whose spelling is read as that row. -/
structure Legible (row : List Token) : Prop where
  /-- Control sequences have names that can be read. -/
  valid : ∀ name, sequence name ∈ row → IsName name
  /-- A backslash that starts no control sequence ends the row. -/
  closed : character '\\' ∉ row.dropLast
  /-- No letter continues a control word. -/
  apart : row.IsChain Apart

/-- The rest of a legible row is legible. -/
theorem Legible.tail {first : Token} {row : List Token} (legible : Legible (first :: row)) :
    Legible row where
  valid name mem := legible.valid name (List.mem_cons_of_mem _ mem)
  closed mem := by
    cases row with
    | nil => cases mem
    | cons next more => exact legible.closed (List.mem_cons_of_mem _ mem)
  apart := legible.apart.tail

/-- A row starts with a letter if its spelling does. -/
theorem apart_of_endsControlWord {name : Text} {row : List Token}
    (ends : IsWord name → endsControlWord (spell row) = true) :
    ∀ next ∈ row.head?, Apart (sequence name) next := by
  rintro next isNext other c same rfl word
  cases same
  cases row with
  | nil => cases isNext
  | cons token more =>
    cases isNext
    exact endsControlWord_iff.1 (ends word) c rfl

/-- A control word is complete in front of a row that may stand behind it. -/
theorem endsControlWord_spell {name : Text} {row : List Token}
    (apart : (sequence name :: row).IsChain Apart) (word : IsWord name) :
    endsControlWord (spell row) = true := by
  cases row with
  | nil => rfl
  | cons next more =>
    cases next with
    | character c =>
      have stop := (List.isChain_cons_cons.1 apart).1 name c rfl rfl word
      simp [endsControlWord, stop]
    | sequence other => rfl

/-- The tokens of a text are a legible row. -/
theorem legible_ofText (text : Text) : Legible (ofText text) := by
  induction text using Text.token_induction with
  | nil => rw [ofText_nil]; exact ⟨by simp, by simp, .nil⟩
  | character first tail plain ih =>
    rw [ofText_character plain]
    refine ⟨?_, ?_, ?_⟩
    · intro name mem
      rcases List.mem_cons.1 mem with same | later
      · cases same
      · exact ih.valid name later
    · cases row : ofText tail with
      | nil => simp
      | cons next more =>
        rw [List.dropLast_cons_cons, List.mem_cons, not_or]
        refine ⟨?_, row ▸ ih.closed⟩
        rintro ⟨⟩
        rw [plain rfl, ofText_nil] at row
        cases row
    · refine List.isChain_cons.2 ⟨?_, ih.apart⟩
      intro next _ name c same
      cases same
  | sequence name rest valid ends ih =>
    rw [ofText_sequence valid ends]
    refine ⟨?_, ?_, ?_⟩
    · intro other mem
      rcases List.mem_cons.1 mem with same | later
      · cases same
        exact valid
      · exact ih.valid other later
    · cases row : ofText rest with
      | nil => simp
      | cons next more =>
        rw [List.dropLast_cons_cons, List.mem_cons, not_or]
        exact ⟨nofun, row ▸ ih.closed⟩
    · refine List.isChain_cons.2 ⟨apart_of_endsControlWord ?_, ih.apart⟩
      rwa [spell_ofText]

/-- A legible row is read back from its spelling. -/
theorem Legible.ofText_spell {row : List Token} (legible : Legible row) :
    ofText (spell row) = row := by
  induction row with
  | nil => simp
  | cons first more ih =>
    cases first with
    | character c =>
      have plain : c = '\\' → spell more = [] := by
        rintro rfl
        cases more with
        | nil => rfl
        | cons next row => exact absurd (List.mem_cons_self ..) legible.closed
      rw [spell_character, ofText_character plain, ih legible.tail]
    | sequence name =>
      have valid := legible.valid name (List.mem_cons_self ..)
      rw [spell_sequence, ofText_sequence valid (endsControlWord_spell legible.apart),
        ih legible.tail]

end Token
end TexStatements
