import TexStatements.Proofs.Group.Grammar
import TexStatements.Proofs.Macro.Arguments
import TexStatements.Proofs.Statement.Body
import TexStatements.Proofs.Text.Commands
import TexStatements.Proofs.Text.Words

/-!
# Complete labels

A complete label is its control word, blanks, and a closed group; what follows does not matter. Its
braces are balanced, so that it may stand inside a group. Joining the lines of a text leaves its
labels where they are: no line break reaches over a character that is not blank.
-/
namespace TexStatements

open TexStatements.Group

/-- A complete label with blanks in front of its group. -/
def labelText (blanks value : Text) : Text :=
  '\\' :: ("label".toList ++ (blanks ++ '{' :: (value ++ ['}'])))

/-- A complete label ends with a brace. -/
theorem labelText_eq_concat (blanks value : Text) :
    labelText blanks value = ('\\' :: ("label".toList ++ (blanks ++ '{' :: value))) ++ ['}'] := by
  simp [labelText]

/-- Labels are read at their control word. -/
theorem guarded_label : label.Guarded (· == "label".toList) := by
  intro text unread
  simp only [label, Reader.andThen, unread, Option.bind_eq_bind, Option.bind_none]

/-- What is read at a backslash depends on the letters behind it and the group behind them. -/
theorem label_read_backslash (tail : Text) :
    label.read ('\\' :: tail) =
      if tail.takeWhile isControlLetter = "label".toList then
        braced? (tail.dropWhile isControlLetter)
      else none := by
  simp only [label, Reader.andThen, controlWord, beq_iff_eq]
  split <;> rfl

/-- A label is read exactly where a complete label stands. -/
theorem label_read_eq_some_iff {text value rest : Text} :
    label.read text = some (value, rest) ↔ ∃ blanks, (∀ c ∈ blanks, isBlank c = true) ∧
      text = labelText blanks value ++ rest ∧ BraceInside value := by
  constructor
  · intro read
    obtain ⟨first, tail, rfl, -⟩ := label.advances read
    have same : first = '\\' := guarded_label.readsCommands.atCommand read first rfl
    rw [same, label_read_backslash] at read
    split at read
    · rename_i word
      obtain ⟨opened, inside⟩ := group?_eq_some_iff.1 read
      obtain ⟨blanks, blank, group⟩ := Text.exists_trimStart (tail.dropWhile isControlLetter)
      have whole := List.takeWhile_append_dropWhile (p := isControlLetter) (l := tail)
      rw [word, group, opened] at whole
      refine ⟨blanks, blank, ?_, inside⟩
      rw [same, ← whole]
      simp [labelText]
    · cases read
  · rintro ⟨blanks, blank, rfl, inside⟩
    have divided : labelText blanks value ++ rest =
        '\\' :: ("label".toList ++ (blanks ++ '{' :: (value ++ '}' :: rest))) := by
      simp [labelText]
    have letters : ∀ letter ∈ "label".toList, isControlLetter letter = true := by decide
    have stops : ∀ first ∈ (blanks ++ '{' :: (value ++ '}' :: rest)).head?,
        isControlLetter first = false := by
      cases blanks with
      | nil => simp [isControlLetter]
      | cons first more =>
        simpa using isControlLetter_of_isBlank (blank first (List.mem_cons_self ..))
    rw [divided, label_read_backslash, takeWhile_run letters stops, dropWhile_run letters stops,
      if_pos rfl]
    refine group?_eq_some_iff.2 ⟨dropWhile_run blank ?_, inside⟩
    simp [isBlank]

/-- Blanks may stand inside a group. -/
theorem braceInside_of_isBlank {blanks : Text} (blank : ∀ c ∈ blanks, isBlank c = true) :
    BraceInside blanks := Delimiters.braces.inside_of_kind (by decide) blank

/-- A complete label may stand inside a group. -/
theorem braceInside_labelText {blanks value : Text} (blank : ∀ c ∈ blanks, isBlank c = true)
    (inside : BraceInside value) : BraceInside (labelText blanks value) := by
  have word : BraceInside "abel".toList := .of_forall (by decide)
  have group : BraceInside ('{' :: (value ++ ['}'])) := .braces inside .empty
  exact .escaped 'l' (word.append ((braceInside_of_isBlank blank).append group))

/-- Text behind a label does not change how it is read. -/
theorem label_read_append {text value rest : Text} (read : label.read text = some (value, rest))
    (more : Text) : label.read (text ++ more) = some (value, rest ++ more) := by
  obtain ⟨blanks, blank, rfl, inside⟩ := label_read_eq_some_iff.1 read
  exact label_read_eq_some_iff.2 ⟨blanks, blank, List.append_assoc _ _ _, inside⟩

section JoinedLines

/-- A line break is a run of blanks with a line feed in it. -/
theorem lineBreak_read_eq_some {text rest : Text} {value : Unit}
    (read : lineBreak.read text = some (value, rest)) :
    rest = text.trimStart ∧ ∃ c tail, text = c :: tail ∧ isBlank c = true := by
  unfold lineBreak at read
  dsimp only at read
  split at read
  · rename_i broken
    cases read
    refine ⟨rfl, ?_⟩
    cases text with
    | nil => simp at broken
    | cons c tail =>
      refine ⟨c, tail, rfl, ?_⟩
      by_contra sharp
      rw [List.takeWhile_cons_of_neg sharp] at broken
      simp at broken
  · cases read

/-- A line break becomes a space. -/
theorem joinLines_of_read {text rest : Text} {value : Unit}
    (read : lineBreak.read text = some (value, rest)) :
    joinLines text = ' ' :: joinLines text.trimStart := by
  rw [← (lineBreak_read_eq_some read).1]
  exact Reader.replaceAll_of_read _ read

/-- A character that starts no line break is kept. -/
theorem joinLines_cons {first : Char} {tail : Text}
    (unread : lineBreak.read (first :: tail) = none) :
    joinLines (first :: tail) = first :: joinLines tail :=
  Reader.replaceAll_of_unread _ unread

/-- There is nothing to join. -/
@[simp] theorem joinLines_nil : joinLines [] = [] := by simp [joinLines, Reader.replaceAll]

/-- No line break starts at a character that is not blank. -/
theorem lineBreak_read_of_sharp {first : Char} (sharp : isBlank first = false) (tail : Text) :
    lineBreak.read (first :: tail) = none := by
  simp [lineBreak, sharp]

/-- Blanks in front of joined lines are blanks in front of the lines. -/
theorem trimStart_joinLines (text : Text) :
    (joinLines text).trimStart = joinLines text.trimStart := by
  unfold joinLines
  fun_induction lineBreak.replaceAll (fun _ => [' ']) text with
  | case1 => simp [Text.trimStart, Reader.replaceAll]
  | case2 first tail value rest read ih =>
    obtain ⟨rfl, -⟩ := lineBreak_read_eq_some read
    have again : Text.trimStart (Text.trimStart (first :: tail)) = Text.trimStart (first :: tail) :=
      Text.trimStart_eq_self fun c => Text.head?_dropWhile_isBlank
    rw [again] at ih
    exact ih
  | case3 first tail unread ih =>
    by_cases blank : isBlank first = true
    · have passed (rest : Text) : Text.trimStart (first :: rest) = Text.trimStart rest :=
        List.dropWhile_cons_of_pos blank
      rw [passed, passed, ih]
    · have kept (rest : Text) : Text.trimStart (first :: rest) = first :: rest :=
        List.dropWhile_cons_of_neg blank
      rw [kept, kept, Reader.replaceAll_of_unread _ unread]

/-- A character is kept when lines are joined, or starts a line break, and then the blanks behind it
go. -/
theorem joinLines_cons_cases (first : Char) (tail : Text) :
    joinLines (first :: tail) = first :: joinLines tail ∨
      isBlank first = true ∧ joinLines (first :: tail) = ' ' :: (joinLines tail).trimStart := by
  cases broken : lineBreak.read (first :: tail) with
  | none => exact .inl (joinLines_cons broken)
  | some found =>
    obtain ⟨value, rest⟩ := found
    obtain ⟨-, _, _, same, blank⟩ := lineBreak_read_eq_some broken
    cases same
    have left : Text.trimStart (first :: tail) = Text.trimStart tail :=
      List.dropWhile_cons_of_pos blank
    exact .inr ⟨blank, by rw [joinLines_of_read broken, left, trimStart_joinLines]⟩

/-- Blanks do not change where a group is closed. -/
theorem closeBracesFrom_trimStart (depth : Nat) (text : Text) :
    (closeBracesFrom depth text.trimStart).map (·.2) = (closeBracesFrom depth text).map (·.2) := by
  obtain ⟨blanks, blank, whole⟩ := text.exists_trimStart
  conv_rhs => rw [whole]
  exact (Passes.behind ((braceInside_of_isBlank blank).passes depth) _).symm

/-- A group is closed in joined lines where it is closed in the lines. -/
theorem closeBracesFrom_joinLines (depth : Nat) (text : Text) :
    (closeBracesFrom depth (joinLines text)).map (·.2) =
      ((closeBracesFrom depth text).map (·.2)).map joinLines := by
  have kept {first : Char} (sharp : isBlank first = false) (tail : Text) :=
    joinLines_cons (lineBreak_read_of_sharp sharp tail)
  fun_induction closeBracesFrom depth text with
  | case1 depth => simp [closeBracesFrom]
  | case2 depth =>
    rw [kept (by decide), joinLines_nil]
    simp [closeBracesFrom]
  | case3 depth c tail ih =>
    rw [map_snd_push, ← ih, kept (by decide)]
    rcases joinLines_cons_cases c tail with same | ⟨-, space⟩
    · rw [same]
      exact Passes.behind (passes_escaped depth c) _
    · -- What is escaped is the space.
      rw [space, ← closeBracesFrom_trimStart depth (joinLines tail)]
      exact Passes.behind (passes_escaped depth ' ') _
  | case4 depth tail _ ih =>
    rw [map_snd_push, ← ih, kept (by decide)]
    exact Passes.behind (passes_opening depth) _
  | case5 tail =>
    rw [kept (by decide), closeBracesFrom_stop]
    rfl
  | case6 tail depth _ _ ih =>
    rw [map_snd_push, ← ih, kept (by decide)]
    exact Passes.behind (passes_closing depth) _
  | case7 depth first tail escape opens closes ih =>
    rw [map_snd_push, ← ih]
    rcases joinLines_cons_cases first tail with same | ⟨-, space⟩
    · rw [same]
      exact Passes.behind (passes_plain depth escape opens closes) _
    · rw [space, ← closeBracesFrom_trimStart depth (joinLines tail)]
      exact Passes.behind (passes_plain depth (by decide) (by decide) (by decide)) _

/-- A group is read in joined lines where it is read in the lines. -/
theorem braced?_joinLines (text : Text) :
    (braced? (joinLines text)).map (·.2) = ((braced? text).map (·.2)).map joinLines := by
  rw [braced?, group?_eq, group?_eq, opened?, opened?, trimStart_joinLines]
  cases start : text.trimStart with
  | nil => simp
  | cons first tail =>
    have begins : (text.dropWhile isBlank).head? = some first := by
      rw [← Text.trimStart, start]
      rfl
    have sharp := Text.head?_dropWhile_isBlank begins
    rw [joinLines_cons (lineBreak_read_of_sharp sharp tail)]
    dsimp only
    split
    · exact closeBracesFrom_joinLines 0 tail
    · rfl

/-- Characters that are not blank are kept. -/
theorem joinLines_append_of_sharp {front : Text} (sharp : ∀ c ∈ front, isBlank c = false)
    (rest : Text) : joinLines (front ++ rest) = front ++ joinLines rest := by
  induction front with
  | nil => rfl
  | cons first front ih =>
    rw [List.forall_mem_cons] at sharp
    rw [List.cons_append, joinLines_cons (lineBreak_read_of_sharp sharp.1 _), ih sharp.2,
      List.cons_append]

/-- Joined lines start with a letter where the lines do. -/
theorem endsControlWord_joinLines (text : Text) :
    endsControlWord (joinLines text) = endsControlWord text := by
  cases text with
  | nil => simp
  | cons first tail =>
    rcases joinLines_cons_cases first tail with same | ⟨blank, space⟩
    · rw [same]
      rfl
    · rw [space, endsControlWord, endsControlWord, isControlLetter_of_isBlank blank]
      decide

/-- The letters at the start of joined lines are those at the start of the lines. -/
theorem takeWhile_joinLines (text : Text) :
    (joinLines text).takeWhile isControlLetter = text.takeWhile isControlLetter ∧
      (joinLines text).dropWhile isControlLetter = joinLines (text.dropWhile isControlLetter) := by
  have letters : ∀ c ∈ text.takeWhile isControlLetter, isControlLetter c = true :=
    fun c => List.mem_takeWhile_imp
  have sharp : ∀ c ∈ text.takeWhile isControlLetter, isBlank c = false := by
    intro c mem
    by_contra blank
    have none := isControlLetter_of_isBlank (by simpa using blank)
    rw [letters c mem] at none
    cases none
  have stops : ∀ first ∈ (joinLines (text.dropWhile isControlLetter)).head?,
      isControlLetter first = false := by
    rw [← endsControlWord_iff, endsControlWord_joinLines]
    exact endsControlWord_dropWhile text
  have divided : joinLines text = text.takeWhile isControlLetter ++
      joinLines (text.dropWhile isControlLetter) := by
    conv_lhs => rw [← List.takeWhile_append_dropWhile (p := isControlLetter) (l := text)]
    exact joinLines_append_of_sharp sharp _
  rw [divided]
  exact ⟨takeWhile_run letters stops, dropWhile_run letters stops⟩

/-- Labels are read in joined lines where they are read in the lines. -/
theorem label_read_joinLines (text : Text) :
    (label.read (joinLines text)).map (·.2) =
      ((label.read text).map (·.2)).map joinLines := by
  have unread {first : Char} (other : first ≠ '\\') (tail : Text) :
      label.read (first :: tail) = none := guarded_label.readsCommands first tail other
  cases text with
  | nil => simp [label, Reader.andThen, controlWord]
  | cons first tail =>
    by_cases command : first = '\\'
    · subst command
      rw [joinLines_cons (lineBreak_read_of_sharp (by decide) tail), label_read_backslash,
        label_read_backslash, (takeWhile_joinLines tail).1, (takeWhile_joinLines tail).2]
      split
      · exact braced?_joinLines _
      · rfl
    · rw [unread command]
      rcases joinLines_cons_cases first tail with same | ⟨-, space⟩
      · rw [same, unread command]
        rfl
      · rw [space, unread (by decide)]
        rfl

end JoinedLines
end TexStatements
