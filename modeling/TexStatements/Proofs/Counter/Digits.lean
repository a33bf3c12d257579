import TexStatements.Counter.Forest
import TexStatements.Proofs.Text.Search

/-!
# Counts as they are written

A count is read back from its numeral, and from its letters except that zero and one are written
alike. A numeral is never written as letters are, and neither has a point, so that a number
determines how each of its counts is written.
-/
namespace TexStatements

/-- Different counts have different numerals. -/
theorem numeral_injective {left right : Nat} (same : numeral left = numeral right) :
    left = right := by
  have value := congrArg (fun digits => Nat.ofDigitChars 10 digits 0) same
  simpa only [numeral, Nat.ofDigitChars_ten_toDigits] using value

/-- A numeral has digits only. -/
theorem isDigit_of_mem_numeral {count : Nat} {c : Char} (mem : c ∈ numeral count) :
    c.isDigit = true := Nat.isDigit_of_mem_toDigits (by decide) (by decide) mem

/-- The letters of digits are different. -/
theorem letterOf_injOn :
    ∀ left < 26, ∀ right < 26, letterOf left = letterOf right → left = right := by decide +kernel

/-- The letter of a digit is neither a digit nor a point. -/
theorem letterOf_special :
    ∀ digit < 26, (letterOf digit).isDigit = false ∧ letterOf digit ≠ '.' := by
  decide +kernel

/-- Every letter is that of a digit. -/
theorem mem_reversedLetters {count : Nat} {c : Char} (mem : c ∈ reversedLetters count) :
    ∃ digit < 26, c = letterOf digit := by
  fun_induction reversedLetters count with
  | case1 => cases mem
  | case2 count positive ih =>
    rcases List.mem_cons.1 mem with rfl | later
    · exact ⟨_, Nat.mod_lt _ (by decide), rfl⟩
    · exact ih later

/-- Different counts have different letters, if zero is written with none. -/
theorem reversedLetters_injective {left right : Nat}
    (same : reversedLetters left = reversedLetters right) : left = right := by
  induction left using Nat.strongRecOn generalizing right with
  | ind left ih =>
    rw [reversedLetters.eq_def left, reversedLetters.eq_def right] at same
    by_cases leftZero : left = 0 <;> by_cases rightZero : right = 0
    · rw [leftZero, rightZero]
    · simp [leftZero, rightZero] at same
    · simp [leftZero, rightZero] at same
    · rw [if_neg leftZero, if_neg rightZero, List.cons.injEq] at same
      have last := letterOf_injOn _ (Nat.mod_lt _ (by decide)) _ (Nat.mod_lt _ (by decide)) same.1
      have front := ih ((left - 1) / 26) (by omega) same.2
      have leftParts := Nat.div_add_mod (left - 1) 26
      have rightParts := Nat.div_add_mod (right - 1) 26
      omega

/-- Letters of a count; zero is written as one is. -/
theorem letters_eq (count : UInt32) :
    letters count = (reversedLetters (max 1 count.toNat)).reverse := by
  unfold letters
  split
  · rename_i zero
    rw [zero]
    decide +kernel
  · rename_i positive
    have other : count.toNat ≠ 0 := fun zero => positive (UInt32.toNat_inj.1 zero)
    rw [Nat.max_eq_right (by omega)]

/-- Only zero and one are written with the same letters. -/
theorem letters_eq_iff {left right : UInt32} :
    letters left = letters right ↔ left = right ∨ left ≤ 1 ∧ right ≤ 1 := by
  rw [letters_eq, letters_eq, List.reverse_inj, UInt32.le_iff_toNat_le, UInt32.le_iff_toNat_le,
    ← UInt32.toNat_inj]
  have one : (1 : UInt32).toNat = 1 := rfl
  constructor
  · intro same
    have := reversedLetters_injective same
    omega
  · intro same
    congr 1
    omega

/-- Letters are neither digits nor points, and there is at least one. -/
theorem mem_letters {count : UInt32} {c : Char} (mem : c ∈ letters count) :
    c.isDigit = false ∧ c ≠ '.' := by
  rw [letters_eq, List.mem_reverse] at mem
  obtain ⟨digit, small, rfl⟩ := mem_reversedLetters mem
  exact letterOf_special digit small

/-- A count has letters. -/
theorem letters_ne_nil (count : UInt32) : letters count ≠ [] := by
  rw [letters_eq, Ne, List.reverse_eq_nil_iff, reversedLetters, if_neg (by omega)]
  exact List.cons_ne_nil _ _

/-- No numeral is written with letters. -/
theorem numeral_ne_letters (count : Nat) (other : UInt32) : numeral count ≠ letters other := by
  intro same
  obtain ⟨c, mem⟩ := List.exists_mem_of_ne_nil _ (letters_ne_nil other)
  have letter := (mem_letters mem).1
  rw [isDigit_of_mem_numeral (same ▸ mem)] at letter
  cases letter

/-- Texts without points are read back from a row of them with a point behind each. -/
theorem flatMap_point_inj {α : Type} {elements : List α} {write other : α → Text}
    (free : ∀ element ∈ elements, '.' ∉ write element)
    (freeOther : ∀ element ∈ elements, '.' ∉ other element) :
    (elements.flatMap fun element => write element ++ ['.']) =
        (elements.flatMap fun element => other element ++ ['.']) ↔
      ∀ element ∈ elements, write element = other element := by
  induction elements with
  | nil => simp
  | cons first more ih =>
    rw [List.forall_mem_cons] at free freeOther
    rw [List.flatMap_cons, List.flatMap_cons, List.forall_mem_cons, ← ih free.2 freeOther.2,
      List.append_assoc, List.append_assoc]
    constructor
    · exact fun same => Text.append_stop_inj free.1 freeOther.1 same
    · rintro ⟨front, rest⟩
      rw [front, rest]

namespace CounterForest

variable {forest next : CounterForest}

/-- Whether a forest writes a counter in letters. -/
def writesLetters (forest : CounterForest) (counter : Text) : Bool :=
  forest.inAppendix && forest.alphaRoots.contains counter

/-- A written count has no point. -/
theorem point_not_mem_component (forest : CounterForest) (counter : Text) :
    '.' ∉ forest.component counter := by
  intro mem
  unfold component at mem
  split at mem
  · exact (mem_letters mem).2 rfl
  · exact absurd (isDigit_of_mem_numeral mem) (by decide)

/-- Two counts of a counter are written alike exactly when they are equal and written in the same
way, or are zero and one in letters. -/
theorem component_eq_iff {counter : Text} :
    forest.component counter = next.component counter ↔
      forest.writesLetters counter = next.writesLetters counter ∧
        (forest.value counter = next.value counter ∨
          forest.writesLetters counter = true ∧
            forest.value counter ≤ 1 ∧ next.value counter ≤ 1) := by
  unfold component
  change (if forest.writesLetters counter = true then _ else _) =
    (if next.writesLetters counter = true then _ else _) ↔ _
  cases forest.writesLetters counter <;> cases next.writesLetters counter
  · simp only [Bool.false_eq_true, if_false, true_and, false_and, or_false, ← UInt32.toNat_inj]
    exact ⟨numeral_injective, congrArg numeral⟩
  · simp [numeral_ne_letters]
  · simp [(numeral_ne_letters _ _).symm]
  · simp [letters_eq_iff]

/-- Two numbers of a counter are written alike exactly when all counts in them are. -/
theorem formattedNumber_eq_iff {counter : Text}
    (chain : forest.chain counter = next.chain counter) :
    forest.formattedNumber counter = next.formattedNumber counter ↔
      ∀ name ∈ next.chain counter, forest.component name = next.component name := by
  rw [formattedNumber, formattedNumber, chain]
  exact flatMap_point_inj (fun name _ => forest.point_not_mem_component name)
    (fun name _ => next.point_not_mem_component name)

end CounterForest
end TexStatements
