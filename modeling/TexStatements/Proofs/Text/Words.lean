import Mathlib.Data.List.TakeWhile
import TexStatements.Proofs.Text.Tokens
import TexStatements.Proofs.Text.Trim

/-!
# Control words of a text

A control word is a backslash and the letters behind it, as many as there are. Two texts in a row
have the control words of each unless the first one ends in the middle of a word and the second one
starts with a letter. Blanks around a text make no difference.
-/
namespace TexStatements

/-- A blank is no letter. -/
theorem isControlLetter_of_isBlank {c : Char} (blank : isBlank c = true) :
    isControlLetter c = false := by
  cases letter : isControlLetter c with
  | false => rfl
  | true =>
    simp only [isControlLetter, Bool.or_eq_true, Bool.and_eq_true, decide_eq_true_eq, beq_iff_eq,
      Char.le_def, UInt32.le_iff_toNat_le] at letter
    simp only [isBlank, Bool.or_eq_true, Bool.and_eq_true, decide_eq_true_eq, beq_iff_eq] at blank
    rcases letter with (lower | upper) | rfl
    · have low : 97 ≤ c.val.toNat := lower.1
      have high : c.val.toNat ≤ 122 := lower.2
      omega
    · have low : 65 ≤ c.val.toNat := upper.1
      have high : c.val.toNat ≤ 90 := upper.2
      omega
    · revert blank
      decide

/-- The reader of control words with at least one letter. -/
def wordReader : Reader Text := controlWord fun word => !word.isEmpty

namespace Text

/-- The control words of a text, from left to right. -/
def controlWords (text : Text) : List Text := (wordReader.occurrences text).map (·.value)

/-- The control word at the start of a text, if there is one. -/
def wordAt (text : Text) : List Text := ((wordReader.read text).map (·.1)).toList

/-- The last backslash of a text has only letters behind it, or nothing at all. -/
def EndsInWord (text : Text) : Prop :=
  (text.reverse.dropWhile isControlLetter).head? = some '\\'

instance (text : Text) : Decidable text.EndsInWord :=
  inferInstanceAs (Decidable ((text.reverse.dropWhile isControlLetter).head? = some '\\'))

/-- A text ends in a word exactly if a backslash and letters are its end. -/
theorem endsInWord_iff {text : Text} :
    text.EndsInWord ↔ ∃ letters, '\\' :: letters <:+ text ∧
      ∀ letter ∈ letters, isControlLetter letter = true := by
  constructor
  · intro starts
    obtain ⟨more, left⟩ := List.head?_eq_some_iff.1 starts
    have whole := List.takeWhile_append_dropWhile (p := isControlLetter) (l := text.reverse)
    rw [left] at whole
    refine ⟨(text.reverse.takeWhile isControlLetter).reverse, ⟨more.reverse, ?_⟩, fun letter mem =>
      List.mem_takeWhile_imp (List.mem_reverse.1 mem)⟩
    have turned := congrArg List.reverse whole
    simpa using turned
  · rintro ⟨letters, ⟨front, rfl⟩, accepted⟩
    have turned : (front ++ '\\' :: letters).reverse =
        letters.reverse ++ '\\' :: front.reverse := by simp
    rw [EndsInWord, turned, dropWhile_run (by simpa using accepted) (by simp [isControlLetter])]
    rfl

/-- More text in front makes no difference to the end. -/
theorem EndsInWord.append_left {text : Text} (ends : text.EndsInWord) (front : Text) :
    EndsInWord (front ++ text) := by
  obtain ⟨letters, suffix, word⟩ := endsInWord_iff.1 ends
  exact endsInWord_iff.2 ⟨letters, suffix.trans (List.suffix_append front text), word⟩

/-- A backslash in front of letters is the last one. -/
theorem endsInWord_cons {first : Char} {text : Text} :
    EndsInWord (first :: text) ↔
      text.EndsInWord ∨ first = '\\' ∧ ∀ letter ∈ text, isControlLetter letter = true := by
  rw [endsInWord_iff, endsInWord_iff]
  constructor
  · rintro ⟨letters, suffix, word⟩
    rcases List.suffix_cons_iff.1 suffix with same | inside
    · cases same
      exact .inr ⟨rfl, word⟩
    · exact .inl ⟨letters, inside, word⟩
  · rintro (⟨letters, suffix, word⟩ | ⟨rfl, word⟩)
    · exact ⟨letters, suffix.trans (List.suffix_cons first text), word⟩
    · exact ⟨text, List.suffix_refl _, word⟩

/-- What stands in front of a character that belongs to no word does not count. -/
theorem endsInWord_append_cons {c : Char} (other : c ≠ '\\') (sharp : isControlLetter c = false)
    (front rest : Text) : EndsInWord (front ++ c :: rest) ↔ EndsInWord rest := by
  have behind : EndsInWord (c :: rest) ↔ EndsInWord rest := by
    simp [endsInWord_cons, other]
  induction front with
  | nil => exact behind
  | cons first front ih =>
    refine endsInWord_cons.trans ((or_congr_left ih).trans (or_iff_left_of_imp ?_))
    rintro ⟨-, word⟩
    have letter := word c (by simp)
    rw [sharp] at letter
    cases letter

/-- Only a backslash starts a word. -/
theorem wordAt_of_ne {first : Char} (other : first ≠ '\\') (tail : Text) :
    wordAt (first :: tail) = [] := by
  rw [wordAt, wordReader, Reader.controlWord_readsCommands _ first tail other]
  rfl

/-- The word behind a backslash. -/
theorem wordAt_backslash (tail : Text) :
    wordAt ('\\' :: tail) = [tail.takeWhile isControlLetter].filter (· ≠ []) := by
  simp only [wordAt, wordReader, controlWord, List.filter_cons, List.filter_nil]
  split <;> simp_all

/-- The letters of the word behind a backslash. -/
theorem flatten_wordAt_backslash (tail : Text) :
    (wordAt ('\\' :: tail)).flatten = tail.takeWhile isControlLetter := by
  rw [wordAt_backslash]
  cases letters : tail.takeWhile isControlLetter <;> simp

/-- The places of words are the start of a text, if a word is there, and those in its tail. -/
theorem occurrences_wordReader_cons (first : Char) (tail : Text) :
    wordReader.occurrences (first :: tail) =
      ((wordReader.read (first :: tail)).map fun (word, rest) =>
        ⟨first :: tail, word, rest⟩).toList ++ wordReader.occurrences tail := by
  cases read : wordReader.read (first :: tail) with
  | none =>
    have single : wordReader.SilentOver [first] (tail ++ []) :=
      Reader.silentOver_cons.2 ⟨by simpa using read, Reader.silentOver_nil _ _⟩
    simpa using Reader.occurrences_append single
  | some found =>
    obtain ⟨word, rest⟩ := found
    have same : first = '\\' := (Reader.controlWord_readsCommands _).atCommand read first rfl
    subst same
    have letters : ∀ letter ∈ tail.takeWhile isControlLetter, isControlLetter letter = true :=
      fun letter => List.mem_takeWhile_imp
    have behind : rest = tail.dropWhile isControlLetter := by
      simp only [wordReader, controlWord] at read
      split at read
      · cases read
        rfl
      · cases read
    have passed : wordReader.SilentOver (tail.takeWhile isControlLetter) rest :=
      (Reader.controlWord_readsCommands _).silentOver rest fun mem =>
        absurd (letters _ mem) (by decide)
    have later := Reader.occurrences_append passed
    rw [behind, List.takeWhile_append_dropWhile, ← behind] at later
    rw [Reader.occurrences_of_read read, ← later]
    rfl

/-- The words of a text are the one at its start, if any, and those of its tail. -/
theorem controlWords_cons (first : Char) (tail : Text) :
    controlWords (first :: tail) = wordAt (first :: tail) ++ controlWords tail := by
  rw [controlWords, occurrences_wordReader_cons, wordAt]
  cases wordReader.read (first :: tail) <;> rfl

/-- Words do not cross from one text to the next. -/
theorem occurrences_wordReader_append {front rest : Text}
    (apart : front.EndsInWord → endsControlWord rest = true) :
    wordReader.occurrences (front ++ rest) =
      (wordReader.occurrences front).map (·.before rest) ++ wordReader.occurrences rest := by
  refine Reader.occurrences_append_of_reads fun place suffix nonempty => ?_
  cases place with
  | nil => exact absurd rfl nonempty
  | cons first letters =>
    by_cases same : first = '\\'
    · subst same
      -- The letters of the place end inside it, or are all of it.
      have divided : letters = letters.takeWhile isControlLetter ++
          letters.dropWhile isControlLetter := List.takeWhile_append_dropWhile.symm
      have word : ∀ letter ∈ letters.takeWhile isControlLetter, isControlLetter letter = true :=
        fun letter => List.mem_takeWhile_imp
      have stops := endsControlWord_iff.1 (endsControlWord_dropWhile letters)
      have stopsBehind : ∀ first ∈ (letters.dropWhile isControlLetter ++ rest).head?,
          isControlLetter first = false := by
        cases behind : letters.dropWhile isControlLetter with
        | nil =>
          rw [behind, List.append_nil] at divided
          rw [← divided] at word
          exact endsControlWord_iff.1 (apart (endsInWord_iff.2 ⟨letters, suffix, word⟩))
        | cons first more =>
          rw [behind] at stops
          simpa using stops
      have inside := Reader.controlWord_read (fun word => !word.isEmpty) word stops
      have further := Reader.controlWord_read (fun word => !word.isEmpty) word stopsBehind
      rw [← divided] at inside
      rw [← List.append_assoc, ← divided] at further
      rw [List.cons_append, wordReader, inside, further]
      split <;> rfl
    · rw [List.cons_append, wordReader, Reader.controlWord_readsCommands _ first _ same,
        Reader.controlWord_readsCommands _ first _ same]
      rfl

/-- Trimming a text leaves its words. -/
theorem controlWords_trim (text : Text) : controlWords text.trim = controlWords text := by
  obtain ⟨lead, trail, whole, before, behind⟩ := exists_trim text
  have ends : endsControlWord trail = true := by
    rw [endsControlWord_iff]
    intro c isFirst
    exact isControlLetter_of_isBlank (behind c (List.mem_of_mem_head? isFirst))
  have passed : wordReader.SilentOver lead (text.trim ++ trail) :=
    (Reader.controlWord_readsCommands _).silentOver _ (not_mem_of_blank before rfl)
  have none : wordReader.occurrences trail = [] :=
    Reader.occurrences_of_silent
      ((Reader.controlWord_readsCommands _).silentOver [] (not_mem_of_blank behind rfl))
  have places : wordReader.occurrences text =
      (wordReader.occurrences text.trim).map (·.before trail) := by
    conv_lhs => rw [whole]
    rw [List.append_assoc, Reader.occurrences_append passed,
      occurrences_wordReader_append fun _ => ends, none, List.append_nil]
  rw [controlWords, controlWords, places, List.map_map]
  rfl

end Text
end TexStatements
