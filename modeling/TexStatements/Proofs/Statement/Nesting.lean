import Mathlib.Data.List.Infix
import TexStatements.Proofs.Statement.Outline

/-!
# Nested tags

The tags of the listed environments that occur in a text are properly nested when each closing tag
closes the innermost environment that is open, no environment is opened inside itself, and none is
left open. A text with properly nested tags has an outline.
-/
namespace TexStatements
namespace Environment

/-- The tag of a listed environment that a text starts with. -/
def tagAt? (names : List Text) (text : Text) : Option Delimiter :=
  (names.flatMap fun name => [⟨.opening, name⟩, ⟨.closing, name⟩]).find? fun delimiter =>
    text.startsWith delimiter.tag

/-- The tags of the listed environments that occur in a text, in order. -/
def tagsIn (names : List Text) (text : Text) : List Delimiter :=
  text.tails.filterMap (tagAt? names)

/-- Tags in order are properly nested, given the environments that are open, innermost first. -/
def Nested : List Text → List Delimiter → Prop
  | opened, [] => opened = []
  | opened, ⟨.opening, name⟩ :: more => name ∉ opened ∧ Nested (name :: opened) more
  | [], ⟨.closing, _⟩ :: _ => False
  | innermost :: outer, ⟨.closing, name⟩ :: more => name = innermost ∧ Nested outer more

/-- Whether tags are properly nested. -/
def decideNested : (opened : List Text) → (tags : List Delimiter) → Decidable (Nested opened tags)
  | opened, [] => inferInstanceAs (Decidable (opened = []))
  | opened, ⟨.opening, name⟩ :: more =>
    have := decideNested (name :: opened) more
    inferInstanceAs (Decidable (name ∉ opened ∧ Nested (name :: opened) more))
  | [], ⟨.closing, _⟩ :: _ => inferInstanceAs (Decidable False)
  | innermost :: outer, ⟨.closing, name⟩ :: more =>
    have := decideNested outer more
    inferInstanceAs (Decidable (name = innermost ∧ Nested outer more))

instance (opened : List Text) (tags : List Delimiter) : Decidable (Nested opened tags) :=
  decideNested opened tags

variable {names : List Text}

/-- A tag at the start of a text is that of a listed environment, and is there. -/
theorem tagAt?_eq_some {text : Text} {delimiter : Delimiter}
    (found : tagAt? names text = some delimiter) :
    delimiter.name ∈ names ∧ ∃ rest, text = delimiter.tag ++ rest := by
  have starts := List.find?_some found
  have mem := List.mem_of_find?_eq_some found
  rw [Text.startsWith, Option.isSome_iff_exists] at starts
  obtain ⟨rest, dropped⟩ := starts
  refine ⟨?_, rest, Text.dropLiteral?_eq_some_iff.1 dropped⟩
  obtain ⟨name, listed, here⟩ := List.mem_flatMap.1 mem
  simp only [List.mem_cons, List.not_mem_nil, or_false] at here
  rcases here with rfl | rfl
  · exact listed
  · exact listed

/-- A text at whose start no tag is found starts with none. -/
theorem not_prefix_of_tagAt? {text : Text} (absent : tagAt? names text = none) (part : End)
    {name : Text} (listed : name ∈ names) : ¬ part.tag name <+: text := by
  rintro ⟨rest, rfl⟩
  have refused := List.find?_eq_none.1 absent ⟨part, name⟩ (by
    refine List.mem_flatMap.2 ⟨name, listed, ?_⟩
    cases part <;> simp)
  refine refused ?_
  rw [Text.startsWith, Delimiter.tag, Text.dropLiteral?_eq_some_iff.2 rfl]
  rfl

/-- The tags of a text are the one at its start, if any, and those of its tail. -/
theorem tagsIn_cons (first : Char) (tail : Text) :
    tagsIn names (first :: tail) =
      (tagAt? names (first :: tail)).toList ++ tagsIn names tail := by
  rw [tagsIn, List.tails, List.filterMap_cons]
  cases tagAt? names (first :: tail) <;> rfl

/-- No tag occurs in an empty text. -/
@[simp] theorem tagsIn_nil : tagsIn names [] = [] := by
  have absent : tagAt? names [] = none := by
    cases found : tagAt? names [] with
    | none => rfl
    | some delimiter =>
      obtain ⟨-, rest, whole⟩ := tagAt?_eq_some found
      rw [Delimiter.tag, End.tag_eq_cons] at whole
      cases whole
  rw [tagsIn, List.tails, List.filterMap_cons, absent, List.filterMap_nil]

/-- No tag starts in a front without a backslash. -/
theorem tagsIn_append {front : Text} (rest : Text) (free : '\\' ∉ front) :
    tagsIn names (front ++ rest) = tagsIn names rest := by
  induction front with
  | nil => rfl
  | cons first front ih =>
    rw [List.mem_cons, not_or] at free
    rw [List.cons_append, tagsIn_cons, ih free.2]
    cases found : tagAt? names (first :: (front ++ rest)) with
    | none => rfl
    | some delimiter =>
      obtain ⟨-, behind, whole⟩ := tagAt?_eq_some found
      rw [Delimiter.tag, End.tag_eq_cons] at whole
      exact absurd (List.cons.inj whole).1.symm free.1

/-- The tags of a text that starts with a tag are that tag and those behind it. -/
theorem tagsIn_tag {first : Char} {tail rest : Text} {delimiter : Delimiter}
    (spellable : Spellable delimiter.name)
    (found : tagAt? names (first :: tail) = some delimiter)
    (whole : first :: tail = delimiter.tag ++ rest) :
    tagsIn names (first :: tail) = delimiter :: tagsIn names rest := by
  rw [Delimiter.tag, End.tag_eq_cons, List.cons_append] at whole
  rw [tagsIn_cons, found, (List.cons.inj whole).2,
    tagsIn_append rest (delimiter.part.backslash_not_mem_tag_tail spellable)]
  rfl

end Environment

namespace Outline

open Environment

/-- A text between tags in which no tag of the listed environments occurs. -/
def Free (names : List Text) (text : Text) : Prop :=
  ∀ part, ∀ name ∈ names, ¬ End.tag part name <:+: text

/-- No tag occurs in an empty text. -/
theorem free_nil (names : List Text) : Free names [] := by
  intro part name _ occurs
  exact part.tag_ne_nil name (List.infix_nil.1 occurs)

/-- An outline with a character in front. -/
def push (first : Char) : Outline → Outline
  | plain text => plain (first :: text)
  | environment front name inside after => environment (first :: front) name inside after

/-- The character is the first one of the text. -/
@[simp] theorem text_push (first : Char) (outline : Outline) :
    (outline.push first).text = first :: outline.text := by
  cases outline <;> rfl

/-- A character in front names no environment. -/
@[simp] theorem names_push (first : Char) (outline : Outline) :
    (outline.push first).names = outline.names := by
  cases outline <;> rfl

/-- A character in front opens nothing. -/
theorem Unnested.push {outline : Outline} (unnested : outline.Unnested) (first : Char) :
    (outline.push first).Unnested := by
  cases outline <;> exact unnested

/-- No tag starts at a character in front where none is found. -/
theorem Free.cons {names : List Text} {first : Char} {front rest : Text}
    (free : Free names front) (absent : tagAt? names (first :: (front ++ rest)) = none) :
    Free names (first :: front) := by
  intro part name listed occurs
  rcases List.infix_cons_iff.1 occurs with atStart | inside
  · exact not_prefix_of_tagAt? absent part listed
      (atStart.trans (List.prefix_append (first :: front) rest))
  · exact free part name listed inside

/-- Where no tag starts at a character in front, the texts between the tags stay free. -/
theorem between_push {names : List Text} {first : Char} {outline : Outline} {rest : Text}
    (between : outline.Between (Free names))
    (absent : tagAt? names (first :: (outline.text ++ rest)) = none) :
    (outline.push first).Between (Free names) := by
  cases outline with
  | plain text => exact Free.cons between absent
  | environment front name inside after =>
    rw [text_environment, List.append_assoc] at absent
    exact ⟨Free.cons between.1 absent, between.2⟩

/-- What is behind an outline, given the environments that are open around it: nothing, or the
closing tag of the innermost one and properly nested tags behind it. -/
def Closes (names : List Text) : List Text → Text → Prop
  | [], text => text = []
  | innermost :: outer, text =>
    ∃ rest, text = End.closing.tag innermost ++ rest ∧ Nested outer (tagsIn names rest)

/-- A text starts with an outline and goes on with a tail, given the environments that are open
around it: those of the outline are none of them, and the tail closes the innermost one. -/
structure Leads (names opened : List Text) (text : Text) (outline : Outline) (tail : Text) :
    Prop where
  /-- The text is the outline and the tail. -/
  whole : text = outline.text ++ tail
  /-- No tag occurs between those of the outline. -/
  between : outline.Between (Free names)
  /-- No environment is open inside itself. -/
  unnested : outline.Unnested
  /-- The environments are listed and not open around the outline. -/
  fresh : ∀ name ∈ outline.names, name ∈ names ∧ name ∉ opened
  /-- The innermost environment around the outline is closed behind it. -/
  closes : Closes names opened tail

section Leads

variable {names opened : List Text} {text tail : Text} {outline : Outline}

/-- Where the innermost environment is closed at once the outline is empty. -/
theorem leads_nil (closes : Closes names opened tail) :
    Leads names opened tail (plain []) tail where
  whole := rfl
  between := free_nil names
  unnested := trivial
  fresh _ mem := absurd mem List.not_mem_nil
  closes := closes

/-- A character at which no tag starts is pushed to the outline behind it. -/
theorem Leads.push (leads : Leads names opened text outline tail) {first : Char}
    (absent : tagAt? names (first :: text) = none) :
    Leads names opened (first :: text) (outline.push first) tail where
  whole := by simp [leads.whole]
  between := between_push leads.between (leads.whole ▸ absent)
  unnested := leads.unnested.push first
  fresh := by simpa using leads.fresh
  closes := leads.closes

/-- An opening tag, the outline up to the tag that closes it and the outline behind that tag are
one outline. -/
theorem Leads.environment {name further : Text} {inside after : Outline}
    (leadsInside : Leads names (name :: opened) text inside (End.closing.tag name ++ further))
    (leadsAfter : Leads names opened further after tail) (listed : name ∈ names)
    (unopened : name ∉ opened) :
    Leads names opened (End.opening.tag name ++ text) (environment [] name inside after) tail where
  whole := by
    rw [text_environment, leadsInside.whole, leadsAfter.whole]
    simp
  between := ⟨free_nil names, leadsInside.between, leadsAfter.between⟩
  unnested := by
    refine ⟨?_, leadsInside.unnested, leadsAfter.unnested⟩
    intro occurs
    exact (leadsInside.fresh name occurs).2 (List.mem_cons_self ..)
  fresh := by
    intro other occurs
    rcases List.mem_cons.1 occurs with rfl | occurs
    · exact ⟨listed, unopened⟩
    rcases List.mem_append.1 occurs with isInside | isAfter
    · have outside := leadsInside.fresh other isInside
      exact ⟨outside.1, fun isOpen => outside.2 (List.mem_cons_of_mem _ isOpen)⟩
    · exact leadsAfter.fresh other isAfter
  closes := leadsAfter.closes

end Leads

/-- A text with properly nested tags starts with an outline, up to the tag that closes the
innermost environment around it. -/
theorem exists_outline {names : List Text} (spellable : ∀ name ∈ names, Spellable name)
    {opened : List Text} {text : Text} (nested : Nested opened (tagsIn names text)) :
    ∃ outline tail, Leads names opened text outline tail := by
  -- Induction on the length of the text, since what is behind an inner outline is not its tail.
  induction size : text.length using Nat.strongRecOn generalizing opened text with
  | ind length ih =>
    subst size
    cases text with
    | nil =>
      rw [tagsIn_nil] at nested
      cases nested
      exact ⟨plain [], [], leads_nil rfl⟩
    | cons first tail =>
      cases found : tagAt? names (first :: tail) with
      | none =>
        rw [tagsIn_cons, found] at nested
        obtain ⟨outline, behind, leads⟩ := ih tail.length (Nat.lt_succ_self _) nested rfl
        exact ⟨outline.push first, behind, leads.push found⟩
      | some delimiter =>
        obtain ⟨listed, rest, whole⟩ := tagAt?_eq_some found
        have shorter : rest.length < (first :: tail).length := by
          have positive := List.length_pos_iff.2 (delimiter.part.tag_ne_nil delimiter.name)
          rw [whole, Delimiter.tag, List.length_append]
          omega
        rw [tagsIn_tag (spellable _ listed) found whole] at nested
        obtain ⟨part, name⟩ := delimiter
        cases part with
        | opening =>
          obtain ⟨unopened, nestedInside⟩ := nested
          obtain ⟨inside, _, leadsInside⟩ := ih rest.length shorter nestedInside rfl
          obtain ⟨further, rfl, nestedAfter⟩ := leadsInside.closes
          have shorterAfter : further.length < (first :: tail).length := by
            rw [leadsInside.whole, List.length_append, List.length_append] at shorter
            omega
          obtain ⟨after, behind, leadsAfter⟩ := ih further.length shorterAfter nestedAfter rfl
          rw [whole]
          exact ⟨_, behind, leadsInside.environment leadsAfter listed unopened⟩
        | closing =>
          cases opened with
          | nil => cases nested
          | cons innermost outer =>
            obtain ⟨rfl, nestedOuter⟩ := nested
            exact ⟨plain [], first :: tail, leads_nil ⟨rest, whole, nestedOuter⟩⟩

end Outline
end TexStatements
