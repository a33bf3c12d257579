import TexStatements.Proofs.Comment.Scan
import TexStatements.Proofs.Statement.Label

/-!
# Taking labels out

What stands in front of a label and what stands behind it are next to each other when the label is
taken out, with nothing in between. If the front ends in a control word and a letter comes behind,
that word is lengthened; all control words outside the labels are kept exactly where this does not
happen. In the same way a label can be completed that was none before: by letters, by a group behind
its control word, or because a backslash that escaped the one of the label escapes a brace instead.
-/
namespace TexStatements

open TexStatements.Group

/-- A place starts in what is read at another one. -/
def Found.StartsIn {α β : Type} (place : Found α) (found : Found β) : Prop :=
  found.rest.length < place.place.length ∧ place.place.length ≤ found.place.length

instance {α β : Type} (place : Found α) (found : Found β) : Decidable (place.StartsIn found) :=
  inferInstanceAs (Decidable (_ ∧ _))

/-- The control words of a text that belong to none of its complete labels. -/
def wordsOutsideLabels (text : Text) : List Text :=
  ((wordReader.occurrences text).filter fun word =>
    ∀ found ∈ label.occurrences text, ¬word.StartsIn found).map (·.value)

/-- A text without its complete labels. -/
def unlabelled (text : Text) : Text := label.replaceAll (fun _ => []) text

/-- A control word at the end of a text, or a single backslash, is lengthened by a letter. -/
def JoinsWord (front rest : Text) : Prop := front.EndsInWord ∧ endsControlWord rest = false

instance (front rest : Text) : Decidable (JoinsWord front rest) :=
  inferInstanceAs (Decidable (_ ∧ _))

/-- The control word of a label at the end of a text, with blanks behind it, gets a group. -/
def JoinsLabel (front rest : Text) : Prop :=
  "\\label".toList <:+ front.trimEnd ∧ rest.trimStart.head? = some '{'

instance (front rest : Text) : Decidable (JoinsLabel front rest) :=
  inferInstanceAs (Decidable (_ ∧ _))

/-- A backslash at the end of a text escapes another character. -/
def JoinsEscape (front rest : Text) : Prop := front.EndsUnpaired ∧ rest ≠ []

instance (front rest : Text) : Decidable (JoinsEscape front rest) :=
  inferInstanceAs (Decidable (_ ∧ _))

/-- Two texts join in one of these ways. -/
def Joins (front rest : Text) : Prop :=
  JoinsWord front rest ∨ JoinsLabel front rest ∨ JoinsEscape front rest

instance (front rest : Text) : Decidable (Joins front rest) :=
  inferInstanceAs (Decidable (_ ∨ _))

/-- Behind a front, what stands before a label does not join what is left behind the label. -/
def ApartBehind (joins : Text → Text → Prop) (front text : Text) : Prop :=
  ∀ found ∈ label.occurrences text,
    ¬joins (front ++ text.before found.place) (unlabelled found.rest)

/-- What stands before a label does not join what is left behind the label. -/
def LabelsApart (joins : Text → Text → Prop) (text : Text) : Prop := ApartBehind joins [] text

instance (joins : Text → Text → Prop) [∀ front rest, Decidable (joins front rest)] (text : Text) :
    Decidable (LabelsApart joins text) :=
  inferInstanceAs (Decidable (∀ found ∈ label.occurrences text, _))

section Equations

variable {first : Char} {text tail rest value : Text}

/-- A label is left out. -/
theorem unlabelled_of_read (read : label.read text = some (value, rest)) :
    unlabelled text = unlabelled rest :=
  Reader.replaceAll_of_read _ read

/-- Other characters are kept. -/
theorem unlabelled_cons (unread : label.read (first :: tail) = none) :
    unlabelled (first :: tail) = first :: unlabelled tail :=
  Reader.replaceAll_of_unread _ unread

/-- Nothing is left of an empty text. -/
@[simp] theorem unlabelled_nil : unlabelled [] = [] := by simp [unlabelled, Reader.replaceAll]

/-- The labels of a text that starts with none are those of its tail. -/
theorem occurrences_label_cons (unread : label.read (first :: tail) = none) :
    label.occurrences (first :: tail) = label.occurrences tail :=
  Reader.occurrences_append (Reader.silentOver_cons.2 ⟨unread, Reader.silentOver_nil _ _⟩)

/-- What stands in front of a place behind a front. -/
theorem Text.before_append_of_suffix {front place : Text} (suffix : place <:+ rest) :
    before (front ++ rest) place = front ++ before rest place := by
  obtain ⟨between, rfl⟩ := suffix
  rw [← List.append_assoc, before_append, before_append]

variable {joins : Text → Text → Prop} {front : Text}

/-- A text that starts with a character that is kept. -/
theorem apartBehind_cons (unread : label.read (first :: tail) = none) :
    ApartBehind joins front (first :: tail) ↔ ApartBehind joins (front ++ [first]) tail := by
  have places := (label.occurrences_ordered tail).1
  rw [ApartBehind, occurrences_label_cons unread]
  refine forall₂_congr fun found mem => ?_
  have before : Text.before ([first] ++ tail) found.place = [first] ++ tail.before found.place :=
    Text.before_append_of_suffix (places found mem).1
  rw [← List.singleton_append, before, ← List.append_assoc]

/-- A text that starts with a label. -/
theorem apartBehind_labelText {blanks : Text}
    (read : label.read (labelText blanks value ++ rest) = some (value, rest)) :
    ApartBehind joins front (labelText blanks value ++ rest) ↔
      ¬joins front (unlabelled rest) ∧
        ApartBehind joins (front ++ labelText blanks value) rest := by
  have places := (label.occurrences_ordered rest).1
  rw [ApartBehind, Reader.occurrences_of_read read, List.forall_mem_cons]
  refine and_congr ?_ (forall₂_congr fun found mem => ?_)
  · have before : Text.before (labelText blanks value ++ rest) (labelText blanks value ++ rest) =
        [] := Text.before_append [] _
    rw [before, List.append_nil]
  · rw [Text.before_append_of_suffix (places found mem).1, List.append_assoc]

end Equations

/-- A text is empty, or starts with a complete label, or with a character that is kept. -/
theorem label_induction {motive : Text → Prop} (nil : motive [])
    (complete : ∀ blanks value rest, BraceInside (labelText blanks value) →
      label.read (labelText blanks value ++ rest) = some (value, rest) → motive rest →
        motive (labelText blanks value ++ rest))
    (cons : ∀ first tail, label.read (first :: tail) = none → motive tail →
      motive (first :: tail)) (text : Text) : motive text := by
  fun_induction label.occurrences text with
  | case1 => exact nil
  | case2 first tail value rest read ih =>
    obtain ⟨blanks, blank, whole, inside⟩ := label_read_eq_some_iff.1 read
    rw [whole] at read ⊢
    exact complete blanks value rest (braceInside_labelText blank inside) read ih
  | case3 first tail unread ih => exact cons first tail unread ih

section Words

variable {first : Char} {text tail rest blanks value : Text}

/-- The words outside the labels of a text that starts with none. -/
theorem wordsOutsideLabels_cons (unread : label.read (first :: tail) = none) :
    wordsOutsideLabels (first :: tail) =
      Text.wordAt (first :: tail) ++ wordsOutsideLabels tail := by
  rw [wordsOutsideLabels, occurrences_label_cons unread, Text.occurrences_wordReader_cons,
    List.filter_append, List.map_append, Text.wordAt]
  refine congrArg (· ++ _) ?_
  cases wordReader.read (first :: tail) with
  | none => rfl
  | some found =>
    have kept : ∀ place ∈ label.occurrences tail,
        ¬Found.StartsIn ⟨first :: tail, found.1, found.2⟩ place := by
      rintro place mem ⟨-, before⟩
      have size := ((label.occurrences_ordered tail).1 place mem).1.length_le
      simp only [List.length_cons] at before
      omega
    simp only [Option.map_some, Option.toList_some]
    rw [List.filter_cons_of_pos (by simpa using kept)]
    rfl

/-- The words outside the labels of a text that starts with a label. -/
theorem wordsOutsideLabels_labelText
    (read : label.read (labelText blanks value ++ rest) = some (value, rest)) :
    wordsOutsideLabels (labelText blanks value ++ rest) = wordsOutsideLabels rest := by
  have closed : ¬(labelText blanks value).EndsInWord := by
    rw [labelText_eq_concat, Text.endsInWord_append_cons (by decide) (by decide)]
    decide
  rw [wordsOutsideLabels, wordsOutsideLabels, Reader.occurrences_of_read read,
    Text.occurrences_wordReader_append fun ends => absurd ends closed, List.filter_append]
  have inside : ((wordReader.occurrences (labelText blanks value)).map (·.before rest)).filter
      (fun word => decide (∀ found ∈ (⟨labelText blanks value ++ rest, value, rest⟩ : Found Text) ::
        label.occurrences rest, ¬word.StartsIn found)) = [] := by
    rw [List.filter_eq_nil_iff]
    intro word mem
    obtain ⟨original, isWord, rfl⟩ := List.mem_map.1 mem
    obtain ⟨place, read⟩ := (wordReader.occurrences_ordered _).1 original isWord
    have longer := (wordReader.advances read).length_lt
    have starts : (original.before rest).StartsIn
        (⟨labelText blanks value ++ rest, value, rest⟩ : Found Text) := by
      have size := place.length_le
      simp only [Found.StartsIn, Found.before, List.length_append]
      omega
    simpa using fun absent => absurd starts absent
  have behind : ∀ word ∈ wordReader.occurrences rest,
      (∀ found ∈ (⟨labelText blanks value ++ rest, value, rest⟩ : Found Text) ::
        label.occurrences rest, ¬word.StartsIn found) ↔
      ∀ found ∈ label.occurrences rest, ¬word.StartsIn found := by
    intro word mem
    have size := ((wordReader.occurrences_ordered rest).1 word mem).1.length_le
    rw [List.forall_mem_cons, and_iff_right_iff_imp]
    rintro - ⟨before, -⟩
    exact absurd before (Nat.not_lt.2 size)
  rw [inside, List.nil_append,
    List.filter_congr fun word mem => decide_eq_decide.2 (behind word mem)]

/-- Fronts that end in a word alike join words alike. -/
theorem apartBehind_congr {front other : Text}
    (alike : ∀ rest, Text.EndsInWord (front ++ rest) ↔ Text.EndsInWord (other ++ rest)) :
    ApartBehind JoinsWord front text ↔ ApartBehind JoinsWord other text :=
  forall₂_congr fun _ _ => not_congr (and_congr_left' (alike _))

/-- What stands in front of a label joins no word behind it. -/
theorem apartBehind_append_labelText (front : Text) :
    ApartBehind JoinsWord (front ++ labelText blanks value) text ↔ LabelsApart JoinsWord text := by
  refine apartBehind_congr fun rest => ?_
  rw [labelText_eq_concat, ← List.append_assoc, List.append_assoc, List.singleton_append,
    Text.endsInWord_append_cons (by decide) (by decide), List.nil_append]

/-- Another character than a backslash starts no word. -/
theorem apartBehind_singleton (other : first ≠ '\\') :
    ApartBehind JoinsWord [first] text ↔ LabelsApart JoinsWord text := by
  refine apartBehind_congr fun rest => ?_
  simp [Text.endsInWord_cons, other]

/-- A text follows a letter if there are letters at its start. -/
theorem endsControlWord_eq_true_iff : endsControlWord text = true ↔
    text.takeWhile isControlLetter = [] := by
  cases text with
  | nil => simp [endsControlWord]
  | cons first tail => simp [endsControlWord, List.takeWhile_cons]

/-- Behind a backslash there is one thing more to keep: the letters that follow. -/
theorem apartBehind_backslash (text : Text) :
    ApartBehind JoinsWord ['\\'] text ↔ LabelsApart JoinsWord text ∧
      (unlabelled text).takeWhile isControlLetter = text.takeWhile isControlLetter := by
  induction text using label_induction with
  | nil => simp [ApartBehind, LabelsApart, Reader.occurrences]
  | complete blanks value rest braces read ih =>
    have none : (labelText blanks value ++ rest).takeWhile isControlLetter = [] := rfl
    have ends : Text.EndsInWord ['\\'] := by decide
    have empty : ¬Text.EndsInWord [] := by decide
    rw [LabelsApart, apartBehind_labelText read, apartBehind_labelText read,
      apartBehind_append_labelText, apartBehind_append_labelText, unlabelled_of_read read, none,
      ← endsControlWord_eq_true_iff]
    simp only [JoinsWord, ends, empty, true_and, false_and, not_false_iff,
      Bool.not_eq_false]
    exact and_comm
  | cons first tail unread ih =>
    rw [LabelsApart, apartBehind_cons unread, apartBehind_cons unread, unlabelled_cons unread]
    by_cases letter : isControlLetter first = true
    · have kept : first ≠ '\\' := by
        rintro rfl
        revert letter
        decide
      have behind : ApartBehind JoinsWord (['\\'] ++ [first]) tail ↔
          ApartBehind JoinsWord ['\\'] tail :=
        apartBehind_congr fun rest => by simp [Text.endsInWord_cons, kept, letter]
      rw [behind, ih, List.nil_append, apartBehind_singleton kept,
        List.takeWhile_cons_of_pos letter, List.takeWhile_cons_of_pos letter, List.cons_inj_right]
    · have behind : ApartBehind JoinsWord (['\\'] ++ [first]) tail ↔
          ApartBehind JoinsWord ([] ++ [first]) tail :=
        apartBehind_congr fun rest => by simp [Text.endsInWord_cons, letter]
      rw [behind, List.takeWhile_cons_of_neg letter, List.takeWhile_cons_of_neg letter]
      exact (and_iff_left rfl).symm

/-- No label starts in a text of letters. -/
theorem label_silentOver_letters (text : Text) :
    label.SilentOver (text.takeWhile isControlLetter) (text.dropWhile isControlLetter) :=
  guarded_label.readsCommands.silentOver _ fun mem =>
    absurd (List.mem_takeWhile_imp mem) (by decide)

/-- The letters at the start of a text are kept. -/
theorem unlabelled_eq_append (text : Text) : unlabelled text =
    text.takeWhile isControlLetter ++ unlabelled (text.dropWhile isControlLetter) := by
  have divided := Reader.replaceAll_append (fun _ => []) (label_silentOver_letters text)
  rwa [List.takeWhile_append_dropWhile] at divided

/-- The letters at the start of a text are at the start of what is left of it, and there may be
more. -/
theorem takeWhile_prefix_unlabelled (text : Text) :
    text.takeWhile isControlLetter <+: (unlabelled text).takeWhile isControlLetter := by
  have letters : ∀ c ∈ text.takeWhile isControlLetter, isControlLetter c = true :=
    fun c => List.mem_takeWhile_imp
  rw [unlabelled_eq_append, List.takeWhile_append_of_pos letters]
  exact List.prefix_append _ _

/-- Behind the letters at the start of a text is what is left of the rest, if nothing has joined
them. -/
theorem dropWhile_unlabelled
    (kept : (unlabelled text).takeWhile isControlLetter = text.takeWhile isControlLetter) :
    (unlabelled text).dropWhile isControlLetter = unlabelled (text.dropWhile isControlLetter) := by
  have whole := List.takeWhile_append_dropWhile (p := isControlLetter) (l := unlabelled text)
  rw [kept] at whole
  exact List.append_cancel_left (whole.trans (unlabelled_eq_append text))

/-- Taking labels out loses no letter of a word outside of them, and it keeps these words exactly
where none is lengthened. -/
theorem controlWords_unlabelled (text : Text) :
    (wordsOutsideLabels text).flatten.length ≤ (unlabelled text).controlWords.flatten.length ∧
      ((unlabelled text).controlWords = wordsOutsideLabels text ↔ LabelsApart JoinsWord text) := by
  induction text using label_induction with
  | nil =>
    simp [wordsOutsideLabels, Text.controlWords, LabelsApart, ApartBehind, Reader.occurrences]
  | complete blanks value rest braces read ih =>
    have empty : ¬Text.EndsInWord [] := by decide
    rw [wordsOutsideLabels_labelText read, unlabelled_of_read read, LabelsApart,
      apartBehind_labelText read, apartBehind_append_labelText]
    simpa [JoinsWord, empty] using ih
  | cons first tail unread ih =>
    obtain ⟨less, same⟩ := ih
    rw [wordsOutsideLabels_cons unread, unlabelled_cons unread, Text.controlWords_cons, LabelsApart,
      apartBehind_cons unread, List.nil_append]
    by_cases command : first = '\\'
    · subst command
      have more := takeWhile_prefix_unlabelled tail
      rw [apartBehind_backslash, ← same]
      simp only [List.flatten_append, List.length_append, Text.flatten_wordAt_backslash]
      by_cases kept : (unlabelled tail).takeWhile isControlLetter = tail.takeWhile isControlLetter
      · rw [Text.wordAt_backslash, Text.wordAt_backslash, kept, List.append_cancel_left_eq]
        exact ⟨Nat.add_le_add_left less _, (and_iff_left rfl).symm⟩
      · -- The word is longer, so that there are more letters in all.
        have longer := Nat.lt_of_le_of_ne more.length_le fun size =>
          kept (more.eq_of_length size).symm
        refine ⟨by omega, iff_of_false (fun equal => ?_) fun both => kept both.2⟩
        have size := congrArg (fun words => words.flatten.length) equal
        simp only [List.flatten_append, List.length_append, Text.flatten_wordAt_backslash] at size
        omega
    · rw [apartBehind_singleton command, Text.wordAt_of_ne command, Text.wordAt_of_ne command]
      exact ⟨less, same⟩

/-- What is read as a label has no word outside of it. -/
theorem wordsOutsideLabels_of_read (read : label.read text = some (value, rest)) :
    wordsOutsideLabels text = wordsOutsideLabels rest := by
  obtain ⟨blanks, -, rfl, -⟩ := label_read_eq_some_iff.1 read
  exact wordsOutsideLabels_labelText read

/-- A character that starts no command belongs to no word that starts there. -/
theorem wordsOutsideLabels_cons_of_ne (other : first ≠ '\\') (tail : Text) :
    wordsOutsideLabels (first :: tail) = wordsOutsideLabels tail := by
  rw [wordsOutsideLabels_cons (guarded_label.readsCommands first tail other),
    Text.wordAt_of_ne other, List.nil_append]

/-- Blanks in front of a text make no difference. -/
theorem wordsOutsideLabels_trimStart (text : Text) :
    wordsOutsideLabels text.trimStart = wordsOutsideLabels text := by
  obtain ⟨blanks, blank, whole⟩ := text.exists_trimStart
  conv_rhs => rw [whole]
  clear whole
  induction blanks with
  | nil => rfl
  | cons first blanks ih =>
    rw [List.forall_mem_cons] at blank
    have other : first ≠ '\\' := by
      rintro rfl
      exact absurd blank.1 (by decide)
    rw [List.cons_append, wordsOutsideLabels_cons_of_ne other, ih blank.2]

/-- Joining lines leaves the words outside the labels. -/
theorem wordsOutsideLabels_joinLines (text : Text) :
    wordsOutsideLabels (joinLines text) = wordsOutsideLabels text := by
  induction text using label_induction with
  | nil => simp
  | complete blanks value rest braces read ih =>
    have joined := label_read_joinLines (labelText blanks value ++ rest)
    rw [read] at joined
    obtain ⟨⟨inner, behind⟩, readJoined, same⟩ := Option.map_eq_some_iff.1 joined
    cases same
    exact (wordsOutsideLabels_of_read readJoined).trans
      (ih.trans (wordsOutsideLabels_of_read read).symm)
  | cons first tail unread ih =>
    rcases joinLines_cons_cases first tail with same | ⟨blank, space⟩
    · have joined := label_read_joinLines (first :: tail)
      rw [unread, same, Option.map_none, Option.map_none, Option.map_eq_none_iff] at joined
      have word : Text.wordAt (first :: joinLines tail) = Text.wordAt (first :: tail) := by
        by_cases command : first = '\\'
        · rw [command, Text.wordAt_backslash, Text.wordAt_backslash, (takeWhile_joinLines tail).1]
        · rw [Text.wordAt_of_ne command, Text.wordAt_of_ne command]
      rw [same, wordsOutsideLabels_cons joined, wordsOutsideLabels_cons unread, word, ih]
    · have other : first ≠ '\\' := by
        rintro rfl
        exact absurd blank (by decide)
      rw [space, wordsOutsideLabels_cons_of_ne (by decide), wordsOutsideLabels_trimStart, ih,
        wordsOutsideLabels_cons_of_ne other]

end Words

section Completion

variable {first : Char} {text tail rest front : Text} {joins more : Text → Text → Prop}

/-- What does not join in more ways does not join in fewer. -/
theorem ApartBehind.mono (apart : ApartBehind more front text)
    (fewer : ∀ front rest, joins front rest → more front rest) : ApartBehind joins front text :=
  fun found mem joined => apart found mem (fewer _ _ joined)

/-- A front that is passed over stands in front of the labels of the rest. -/
theorem apartBehind_append {between : Text} (passed : label.SilentOver between rest) :
    ApartBehind joins front (between ++ rest) ↔ ApartBehind joins (front ++ between) rest := by
  induction between generalizing front with
  | nil => rw [List.nil_append, List.append_nil]
  | cons first between ih =>
    obtain ⟨start, later⟩ := Reader.silentOver_cons.1 passed
    rw [List.cons_append, apartBehind_cons start, ih later, List.append_assoc,
      List.singleton_append]

/-- Taking labels out closes no group that was open, if it frees no brace from its escape. The two
parts are for the two states of the reader of groups: behind a backslash that escapes what follows,
and elsewhere. -/
theorem isSome_closeBracesFrom (text : Text) :
    (∀ depth front, ¬Text.EndsUnpaired front → ApartBehind JoinsEscape front text →
      (closeBracesFrom depth (unlabelled text)).isSome → (closeBracesFrom depth text).isSome) ∧
    (∀ depth front, Text.EndsUnpaired front → ApartBehind JoinsEscape front text →
      (closeBracesFrom depth ('\\' :: unlabelled text)).isSome →
        (closeBracesFrom depth ('\\' :: text)).isSome) := by
  induction text using label_induction with
  | nil => simp
  | complete blanks value rest braces read ih =>
    rw [unlabelled_of_read read]
    constructor
    · intro depth front _ apart closed
      rw [(braces.passes depth).isSome]
      refine ih.1 depth _ ?_ ((apartBehind_labelText read).1 apart).2 closed
      rw [labelText_eq_concat, ← List.append_assoc]
      exact Text.not_endsUnpaired_concat (by decide) _
    · -- The backslash that is left would escape what stands behind the label.
      intro depth front unpaired apart closed
      have left : unlabelled rest = [] := by
        by_contra nonempty
        exact ((apartBehind_labelText read).1 apart).1 ⟨unpaired, nonempty⟩
      rw [left] at closed
      simp [closeBracesFrom] at closed
  | cons first tail unread ih =>
    rw [unlabelled_cons unread]
    constructor
    · intro depth front paired apart closed
      have behind := (apartBehind_cons unread).1 apart
      by_cases escape : first = '\\'
      · subst escape
        exact ih.2 depth _ ((Text.endsUnpaired_concat_backslash front).2 paired) behind closed
      have still := Text.not_endsUnpaired_concat escape front
      by_cases opens : first = '{'
      · have step (text : Text) := (passes_opening depth).isSome text
        subst opens
        exact (step tail).trans (ih.1 (depth + 1) _ still behind ((step _).symm.trans closed))
      by_cases closes : first = '}'
      · subst closes
        cases depth with
        | zero => rw [closeBracesFrom_stop]; rfl
        | succ depth =>
          have step (text : Text) := (passes_closing depth).isSome text
          exact (step tail).trans (ih.1 depth _ still behind ((step _).symm.trans closed))
      have step (text : Text) := (passes_plain depth escape opens closes).isSome text
      exact (step tail).trans (ih.1 depth _ still behind ((step _).symm.trans closed))
    · intro depth front unpaired apart closed
      have step (text : Text) := (passes_escaped depth first).isSome text
      refine (step tail).trans (ih.1 depth _ ?_ ((apartBehind_cons unread).1 apart)
        ((step _).symm.trans closed))
      by_cases escape : first = '\\'
      · rw [escape, Text.endsUnpaired_concat_backslash, not_not]
        exact unpaired
      · exact Text.not_endsUnpaired_concat escape front

/-- Blanks may stand in front of a group. -/
theorem braced?_append {blanks : Text} (blank : ∀ c ∈ blanks, isBlank c = true) (text : Text) :
    braced? (blanks ++ text) = braced? text := by
  rw [braced?, group?, group?, readGroup, readGroup, Text.trimStart_append blank]

/-- No group is completed behind the control word of a label. -/
theorem braced?_unlabelled (labelled : "\\label".toList <:+ front.trimEnd)
    (sharp : ∀ c ∈ text.head?, isBlank c = false) (apart : ApartBehind Joins front text)
    (unread : braced? text = none) : braced? (unlabelled text) = none := by
  induction text using label_induction with
  | nil => rwa [unlabelled_nil]
  | complete blanks value rest _ read _ =>
    rw [unlabelled_of_read read]
    refine group?_eq_none fun opens => ?_
    exact ((apartBehind_labelText read).1 apart).1 (.inr (.inl ⟨labelled, opens⟩))
  | cons first tail free _ =>
    rw [unlabelled_cons free]
    have start (text : Text) : Text.trimStart (first :: text) = first :: text :=
      Text.trimStart_eq_self sharp
    by_cases opens : first = '{'
    · subst opens
      have group (text : Text) : braced? ('{' :: text) = closeBracesFrom 0 text := by
        rw [braced?, group?_eq, opened?, start]
        rfl
      have escapes := ((apartBehind_cons free).1 apart).mono fun _ _ => Or.inr ∘ Or.inr
      have closes := (isSome_closeBracesFrom tail).1 0 _
        (Text.not_endsUnpaired_concat (by decide) front) escapes
      rw [group] at unread ⊢
      rw [unread, Option.isSome_none] at closes
      exact Option.not_isSome_iff_eq_none.1 fun closed => absurd (closes closed) (by decide)
    · refine group?_eq_none ?_
      rw [start]
      simpa using opens

/-- Blanks between the control word of a label and its group make no difference. -/
theorem braced?_unlabelled_append {blanks : Text} (blank : ∀ c ∈ blanks, isBlank c = true)
    (labelled : "\\label".toList <:+ front) (sharp : ∀ c ∈ text.head?, isBlank c = false)
    (apart : ApartBehind Joins front (blanks ++ text)) (unread : braced? (blanks ++ text) = none) :
    braced? (unlabelled (blanks ++ text)) = none := by
  have passed : label.SilentOver blanks text :=
    guarded_label.readsCommands.silentOver _ (Text.not_mem_of_blank blank rfl)
  have kept : unlabelled (blanks ++ text) = blanks ++ unlabelled text :=
    Reader.replaceAll_append _ passed
  have word : "\\label".toList <:+ Text.trimEnd (front ++ blanks) := by
    obtain ⟨before, rfl⟩ := labelled
    have last : before ++ "\\label".toList ++ blanks =
        (before ++ "\\labe".toList) ++ 'l' :: blanks := by simp
    rw [last, Text.trimEnd_append (by decide) blank]
    exact ⟨before, by simp⟩
  rw [apartBehind_append passed] at apart
  rw [braced?_append blank] at unread
  rw [kept, braced?_append blank]
  exact braced?_unlabelled word sharp apart unread

/-- No label is completed where nothing joins. -/
theorem label_read_unlabelled (unread : label.read (first :: tail) = none)
    (apart : ApartBehind Joins front (first :: tail)) :
    label.read (first :: unlabelled tail) = none := by
  by_cases command : first = '\\'
  · subst command
    have behind := (apartBehind_cons unread).1 apart
    have words : ApartBehind JoinsWord ['\\'] tail := fun found mem joined =>
      behind found mem (.inl ⟨by
        rw [List.append_assoc]
        exact joined.1.append_left front, joined.2⟩)
    have letters := ((apartBehind_backslash tail).1 words).2
    rw [label_read_backslash] at unread ⊢
    rw [letters]
    by_cases word : tail.takeWhile isControlLetter = "label".toList
    · rw [if_pos word] at unread ⊢
      -- Nothing has joined the control word, so that the rest of the tail is behind it.
      rw [dropWhile_unlabelled letters]
      have divided : tail = "label".toList ++ tail.dropWhile isControlLetter := by
        rw [← word, List.takeWhile_append_dropWhile]
      have passed := label_silentOver_letters tail
      rw [word] at passed
      rw [divided, apartBehind_append passed] at behind
      obtain ⟨blanks, blank, group⟩ := Text.exists_trimStart (tail.dropWhile isControlLetter)
      rw [group] at behind unread ⊢
      exact braced?_unlabelled_append blank ⟨front, by simp⟩
        (fun c => Text.head?_dropWhile_isBlank) behind unread
    · rw [if_neg word]
  · exact guarded_label.readsCommands first _ command

/-- No complete label is left where nothing joins. -/
theorem label_read_of_suffix (text : Text) : ∀ front, ApartBehind Joins front text →
    ∀ place, place <:+ unlabelled text → label.read place = none := by
  have empty : label.read [] = none := rfl
  induction text using label_induction with
  | nil =>
    intro _ _ place suffix
    rw [unlabelled_nil, List.suffix_nil] at suffix
    rw [suffix, empty]
  | complete blanks value rest braces read ih =>
    intro front apart place suffix
    rw [unlabelled_of_read read] at suffix
    exact ih _ ((apartBehind_labelText read).1 apart).2 place suffix
  | cons first tail unread ih =>
    intro front apart place suffix
    rw [unlabelled_cons unread] at suffix
    rcases List.suffix_cons_iff.1 suffix with rfl | inside
    · exact label_read_unlabelled unread apart
    · exact ih _ ((apartBehind_cons unread).1 apart) place inside

end Completion

/-- The control words of a body are those of the raw text that belong to none of its complete
labels, in order, exactly where no label stands between a control word, or a backslash, and a
letter. No complete label is left where nothing else joins either. -/
theorem body_keeps_words_iff (raw : Text) :
    let joined := joinLines raw
    let body := (StatementBody.ofRaw raw).text
    (body.controlWords = wordsOutsideLabels raw ↔ LabelsApart JoinsWord joined) ∧
      (LabelsApart Joins joined → ∀ place, place <:+ body → label.read place = none) := by
  intro joined body
  constructor
  · rw [← wordsOutsideLabels_joinLines raw, ← (controlWords_unlabelled joined).2,
      ← Text.controlWords_trim (unlabelled joined)]
    rfl
  · intro apart place suffix
    obtain ⟨lead, trail, whole, -, -⟩ := Text.exists_trim (unlabelled joined)
    have longer : place ++ trail <:+ unlabelled joined := by
      obtain ⟨front, same⟩ := suffix
      refine ⟨lead ++ front, ?_⟩
      rw [whole, ← List.append_assoc, List.append_assoc lead, same]
      rfl
    have none := label_read_of_suffix joined [] apart _ longer
    cases read : label.read place with
    | none => rfl
    | some found =>
      obtain ⟨value, rest⟩ := found
      rw [label_read_append read trail] at none
      cases none

/-- Labels at the end of a line, behind a control word and between words. -/
theorem body_keeps_words_three_labels :
    let raw := ("\n Every \\emph\x7bx\x7d\\label\x7b a \x7d\n is \\foo\\label\x7bb\x7b\\c\x7d\x7d " ++
      "fine.\\label \x7bd\x7d\\bar").toList
    let body := (StatementBody.ofRaw raw).text
    LabelsApart Joins (joinLines raw) ∧ body.controlWords = wordsOutsideLabels raw ∧
      ∀ place, place <:+ body → label.read place = none := by
  intro raw body
  have apart : LabelsApart Joins (joinLines raw) := by decide +kernel
  have kept := body_keeps_words_iff raw
  exact ⟨apart, kept.1.2 fun found mem joined => apart found mem (.inl joined), kept.2 apart⟩

/-- A label between the letters of a control word and more of them: the word gets another name, and
it is that of a label. -/
theorem words_joined_to_label :
    let raw := "\\la\\label\x7bx\x7dbel\x7by\x7d".toList
    let body := (StatementBody.ofRaw raw).text
    wordsOutsideLabels raw = ["la".toList] ∧ body.controlWords = ["label".toList] ∧
      body.controlWords ≠ wordsOutsideLabels raw ∧ label.read body = some ("y".toList, []) := by
  decide +kernel

end TexStatements
