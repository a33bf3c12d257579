import Mathlib.Data.List.Basic
import TexStatements.Group.Flat
import TexStatements.Proofs.Group.Grammar
import TexStatements.Proofs.Text.Trim

/-!
# Plain texts

Letters and digits of ASCII mean nothing to the readers of the library but themselves: they are no
delimiters, no blanks and start no command. A group of such characters is read as it is written.
-/
namespace TexStatements

section Characters

variable {c : Char}

/-- A letter or digit is none of the characters that are neither. -/
theorem ne_of_isAlphanum (plain : c.isAlphanum = true) (other : Char)
    (special : other.isAlphanum = false) : c ≠ other := by
  rintro rfl
  rw [plain] at special
  cases special

/-- A letter is a letter or digit. -/
theorem isAlphanum_of_isAlpha (letter : c.isAlpha = true) : c.isAlphanum = true := by
  simp [Char.isAlphanum, letter]

/-- Letters of ASCII lie in two ranges of code points. -/
theorem isAlpha_iff : c.isAlpha = true ↔
    (65 ≤ c.val.toNat ∧ c.val.toNat ≤ 90) ∨ (97 ≤ c.val.toNat ∧ c.val.toNat ≤ 122) := by
  have ranges : c.isAlpha = (decide (65 ≤ c.val ∧ c.val ≤ 90) ||
      (decide (97 ≤ c.val) && decide (c.val ≤ 122))) := rfl
  simp [ranges, UInt32.le_iff_toNat_le]

/-- Letters and digits of ASCII lie in three ranges of code points. -/
theorem isAlphanum_iff : c.isAlphanum = true ↔
    (65 ≤ c.val.toNat ∧ c.val.toNat ≤ 90) ∨ (97 ≤ c.val.toNat ∧ c.val.toNat ≤ 122) ∨
      (48 ≤ c.val.toNat ∧ c.val.toNat ≤ 57) := by
  simp [Char.isAlphanum, isAlpha_iff, Char.isDigit, UInt32.le_iff_toNat_le, or_assoc]

/-- Letters and digits are not blank. -/
theorem isBlank_of_isAlphanum (plain : c.isAlphanum = true) : isBlank c = false := by
  have ranges := isAlphanum_iff.1 plain
  simp only [isBlank, Bool.or_eq_false_iff, Bool.and_eq_false_iff, decide_eq_false_iff_not,
    beq_eq_false_iff_ne, ne_eq]
  omega

/-- Letters of ASCII are letters of control words. -/
theorem isControlLetter_of_isAlpha (letter : c.isAlpha = true) : isControlLetter c = true := by
  simp only [isControlLetter, Bool.or_eq_true, Bool.and_eq_true, decide_eq_true_eq, beq_iff_eq,
    Char.le_def, UInt32.le_iff_toNat_le]
  rcases isAlpha_iff.1 letter with upper | lower
  · exact .inl (.inr upper)
  · exact .inl (.inl lower)

end Characters

namespace Text

/-- Letters and digits are trimmed. -/
theorem trim_of_isAlphanum {text : Text} (plain : ∀ c ∈ text, c.isAlphanum = true) :
    text.trim = text := by
  apply trim_eq_self
  · intro first isFirst
    exact isBlank_of_isAlphanum (plain first (List.mem_of_mem_head? isFirst))
  · intro last isLast
    exact isBlank_of_isAlphanum (plain last (List.mem_of_getLast? isLast))

end Text

namespace Group

variable {inner : Text}

/-- A group of letters and digits is a whole one. -/
theorem group?_plain (delimiters : Delimiters) (rest : Text)
    (plain : ∀ c ∈ inner, c.isAlphanum = true) :
    group? delimiters (delimiters.opening :: (inner ++ delimiters.closing :: rest)) =
      some (inner, rest) :=
  group?_inside delimiters rest (delimiters.inside_of_kind (by cases delimiters <;> decide) plain)

/-- There is no whole group where another character stands behind the blanks. -/
theorem group?_eq_none {delimiters : Delimiters} {text : Text}
    (absent : text.trimStart.head? ≠ some delimiters.opening) : group? delimiters text = none :=
  congrArg Reading.toOption (readGroup_eq_absent absent)

end Group

namespace Text

/-- A text without a brace. -/
def Flat (text : Text) : Prop := '{' ∉ text ∧ '}' ∉ text

instance (text : Text) : Decidable text.Flat :=
  inferInstanceAs (Decidable ('{' ∉ text ∧ '}' ∉ text))

/-- A text has no brace when each character is taken for part of the inside of a flat group. -/
theorem flat_iff {text : Text} : text.Flat ↔ ∀ c ∈ text, (c != '{' && c != '}') = true := by
  simp only [Flat, Bool.and_eq_true, bne_iff_ne]
  constructor
  · rintro ⟨opening, closing⟩ c mem
    exact ⟨ne_of_mem_of_not_mem mem opening, ne_of_mem_of_not_mem mem closing⟩
  · intro other
    exact ⟨fun mem => (other _ mem).1 rfl, fun mem => (other _ mem).2 rfl⟩

end Text

/-- A flat group is an inside without a brace in braces, behind blanks. -/
theorem flatGroup?_eq_some_iff {text inner rest : Text} :
    flatGroup? text = some (inner, rest) ↔
      inner.Flat ∧ text.trimStart = '{' :: (inner ++ '}' :: rest) := by
  constructor
  · intro read
    refine ⟨Text.flat_iff.2 fun c mem => ?_, flatGroup?_eq_append read⟩
    unfold flatGroup? at read
    split at read
    · split at read
      · cases read
        have accepted := List.mem_takeWhile_imp mem
        exact accepted
      · cases read
    · cases read
  · rintro ⟨flat, group⟩
    have inside := Text.flat_iff.1 flat
    have stops : ∀ first ∈ ('}' :: rest).head?, (first != '{' && first != '}') = false := by simp
    simp only [flatGroup?, group, takeWhile_run inside stops, dropWhile_run inside stops]

/-- A flat group without blanks around it is read as it is written. -/
theorem flatGroup?_plain {inner : Text} (rest : Text)
    (plain : ∀ c ∈ inner, c.isAlphanum = true) :
    flatGroup? ('{' :: (inner ++ '}' :: rest)) = some (inner, rest) := by
  have flat : inner.Flat :=
    ⟨fun mem => ne_of_isAlphanum (plain _ mem) '{' (by decide) rfl,
      fun mem => ne_of_isAlphanum (plain _ mem) '}' (by decide) rfl⟩
  exact flatGroup?_eq_some_iff.2 ⟨flat, rfl⟩

end TexStatements
