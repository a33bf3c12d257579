import TexStatements.Proofs.Macro.Arguments

/-!
# Renaming control sequences

A renaming gives control words other control words as names and leaves control symbols alone. Then
a renamed text is read as the renamed row of its tokens, and whatever reads a text token by token,
such as the readers of groups, reads the renamed text as it reads the text.
-/
namespace TexStatements

open ControlSequence

/-- A renaming of control sequences that keeps control words apart from control symbols, of which
it changes none. -/
structure KeepsWords (newName : Text → Text) : Prop where
  /-- Control words become control words. -/
  word : ∀ name, IsWord name → IsWord (newName name)
  /-- Other names stay. -/
  other : ∀ name, ¬IsWord name → newName name = name

namespace KeepsWords

variable {newName : Text → Text} {name : Text}

/-- Nothing else becomes a control word. -/
theorem isWord_iff (keeps : KeepsWords newName) : IsWord (newName name) ↔ IsWord name := by
  by_cases word : IsWord name
  · exact iff_of_true (keeps.word name word) word
  · rw [keeps.other name word]

/-- What can be read stays so. -/
theorem isName (keeps : KeepsWords newName) (valid : IsName name) : IsName (newName name) := by
  by_cases word : IsWord name
  · exact .inl (keeps.word name word)
  · rwa [keeps.other name word]

/-- A renamed word is complete where the word is. -/
theorem ends (keeps : KeepsWords newName) {rest after : Text}
    (ends : IsWord name → endsControlWord rest = true)
    (same : endsControlWord after = endsControlWord rest) :
    IsWord (newName name) → endsControlWord after = true := fun word =>
  same.trans (ends (keeps.isWord_iff.1 word))

end KeepsWords

/-- Rename a token. -/
def Token.rename (newName : Text → Text) : Token → Token
  | character c => character c
  | sequence name => sequence (newName name)

/-- Rename the control sequences of a text. -/
def Text.rename (newName : Text → Text) (text : Text) : Text :=
  Token.spell ((Token.ofText text).map (Token.rename newName))

namespace Text

variable {newName : Text → Text} {first : Char} {name text tail rest : Text}

/-- An empty text has nothing to rename. -/
@[simp] theorem rename_nil : Text.rename newName [] = [] := by simp [Text.rename]

/-- Characters stay. -/
theorem rename_character (plain : first = '\\' → tail = []) :
    Text.rename newName (first :: tail) = first :: Text.rename newName tail := by
  rw [Text.rename, Token.ofText_character plain]
  rfl

/-- A control sequence gets its new name. -/
theorem rename_sequence (valid : IsName name) (ends : IsWord name → endsControlWord rest = true) :
    Text.rename newName ('\\' :: (name ++ rest)) =
      '\\' :: (newName name ++ Text.rename newName rest) := by
  rw [Text.rename, Token.ofText_sequence valid ends]
  rfl

/-- A renamed text starts as the text does. -/
theorem head?_rename (newName : Text → Text) (text : Text) :
    (Text.rename newName text).head? = text.head? := by
  induction text using Text.token_induction with
  | nil => rw [rename_nil]
  | character first tail plain _ => rw [rename_character plain]; rfl
  | sequence name rest valid ends _ => rw [rename_sequence valid ends]; rfl

/-- A control word is complete in front of a renamed text where it is in front of the text. -/
theorem endsControlWord_rename (newName : Text → Text) (text : Text) :
    endsControlWord (Text.rename newName text) = endsControlWord text := by
  rw [Bool.eq_iff_iff, endsControlWord_iff, endsControlWord_iff, head?_rename]

/-- A renamed text is read as the renamed tokens. -/
theorem ofText_rename (keeps : KeepsWords newName) (text : Text) :
    Token.ofText (Text.rename newName text) = (Token.ofText text).map (Token.rename newName) := by
  induction text using Text.token_induction with
  | nil => simp
  | character first tail plain ih =>
    have still : first = '\\' → Text.rename newName tail = [] := fun same => by
      rw [plain same, rename_nil]
    rw [rename_character plain, Token.ofText_character still, Token.ofText_character plain, ih]
    rfl
  | sequence name rest valid ends ih =>
    rw [rename_sequence valid ends, Token.ofText_sequence valid ends,
      Token.ofText_sequence (keeps.isName valid) (keeps.ends ends (endsControlWord_rename _ _)), ih]
    rfl

/-- The control sequences of a renamed text. -/
theorem names_rename (keeps : KeepsWords newName) (text : Text) :
    ControlSequence.names (Text.rename newName text) =
      (ControlSequence.names text).map newName := by
  rw [← Token.names_ofText, ofText_rename keeps, ← Token.names_ofText]
  generalize Token.ofText text = row
  induction row with
  | nil => rfl
  | cons token row ih =>
    cases token with
    | character c => exact ih
    | sequence name =>
      rw [Token.names_sequence, List.map_cons, List.map_cons, ← ih]
      rfl

/-- Blanks in front of a text stay in front of it. -/
theorem trimStart_rename (newName : Text → Text) (text : Text) :
    (Text.rename newName text).trimStart = Text.rename newName text.trimStart := by
  induction text using Text.token_induction with
  | nil => simp [trimStart]
  | character first tail plain ih =>
    rw [rename_character plain]
    by_cases blank : isBlank first = true
    · have dropped (after : Text) : trimStart (first :: after) = trimStart after := by
        simp [trimStart, blank]
      rw [dropped, dropped, ih]
    · have stays (after : Text) : trimStart (first :: after) = first :: after := by
        simp [trimStart, blank]
      rw [stays, stays, rename_character plain]
  | sequence name rest valid ends ih =>
    have stays (after : Text) : trimStart ('\\' :: after) = '\\' :: after := by
      have visible : isBlank '\\' = false := by decide
      simp [trimStart, visible]
    rw [stays, rename_sequence valid ends, stays]

end Text

namespace Group

variable {newName : Text → Text} {Opened : Type} {close : Opened → Text → Option (Text × Text)}
  {stop : Char}

/-- Rename the inside of a group and the text after it. -/
def renamed (newName : Text → Text) (group : Text × Text) : Text × Text :=
  (Text.rename newName group.1, Text.rename newName group.2)

/-- A group of a renamed text is closed where the one of the text is. -/
theorem Closes.rename (closes : Closes close stop) (keeps : KeepsWords newName) (opened : Opened)
    (text : Text) :
    close opened (Text.rename newName text) = (close opened text).map (renamed newName) := by
  induction text using Text.token_induction generalizing opened with
  | nil => rw [Text.rename_nil, closes.nil, Option.map_none]
  | character first tail plain ih =>
    rw [Text.rename_character plain]
    by_cases escape : first = '\\'
    · rw [escape, plain escape, Text.rename_nil, closes.lone, Option.map_none]
    · rcases closes.character opened first escape with ⟨-, step⟩ | ⟨next, step⟩
      · rw [step, step, Option.map_some, renamed, Text.rename_nil]
      · have kept (after : Text) :
            Text.rename newName (first :: after) = first :: Text.rename newName after :=
          Text.rename_character fun same => absurd same escape
        rw [step, step, ih]
        cases close next tail with
        | none => rfl
        | some group => simp only [push, Option.map_some, renamed, List.singleton_append, kept]
  | sequence name rest valid ends ih =>
    rw [Text.rename_sequence valid ends, closes.sequence opened _ _ (keeps.isName valid),
      closes.sequence opened _ _ valid, ih]
    cases closed : close opened rest with
    | none => rfl
    | some group =>
      obtain ⟨inner, after⟩ := group
      have endsInside : IsWord name → endsControlWord inner = true := fun word =>
        endsControlWord_of_append ((closes.ofText_eq closed).1 ▸ ends word)
      simp only [push, Option.map_some, renamed, List.cons_append,
        Text.rename_sequence valid endsInside]

/-- A group behind blanks is found in a renamed text as in the text. -/
theorem Closes.opened?_rename (closes : Closes close stop) (keeps : KeepsWords newName)
    (opened : Opened) {opening : Char} (noEscape : opening ≠ '\\') (text : Text) :
    opened? opening (close opened) (Text.rename newName text) =
      (opened? opening (close opened) text).map (renamed newName) := by
  rw [opened?, opened?, Text.trimStart_rename]
  generalize text.trimStart = start
  cases start with
  | nil => rw [Text.rename_nil]; rfl
  | cons first tail =>
    by_cases opens : first = opening
    · have kept : Text.rename newName (first :: tail) = first :: Text.rename newName tail :=
        Text.rename_character fun same => absurd (opens.symm.trans same) noEscape
      simp only [kept, if_pos opens, closes.rename keeps]
    · have same := Text.head?_rename newName (first :: tail)
      cases changed : Text.rename newName (first :: tail) with
      | nil =>
        rw [changed] at same
        cases same
      | cons other after =>
        rw [changed] at same
        cases same
        simp only [if_neg opens, Option.map_none]

end Group
end TexStatements
