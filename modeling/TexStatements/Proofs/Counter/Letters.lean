import Mathlib.Data.List.Induction
import TexStatements.Proofs.Counter.Digits

/-!
# Letters as numerals without a zero

Read in base 26 with A as one and Z as twenty-six, a row of capitals has a value. Since there is no
digit for zero, every positive value is that of one row only, and the letters of a count are that
row (`letters_numerate`). A longer row has the greater value, and of two rows of one length the one
with the greater capital where they first differ.
-/
namespace TexStatements

/-- Whether a character is a capital of ASCII. -/
def isCapital (c : Char) : Bool := 'A' ≤ c && c ≤ 'Z'

/-- The digit that a capital stands for: one for A, twenty-six for Z. -/
def capitalValue (c : Char) : Nat := c.val.toNat - 'A'.val.toNat + 1

/-- The value of a row of capitals in base 26, most significant first. -/
def capitalsValue (capitals : Text) : Nat :=
  capitals.foldl (fun value c => 26 * value + capitalValue c) 0

section Capital

variable {c other : Char}

/-- The code points of the capitals. -/
theorem isCapital_iff : isCapital c = true ↔ 65 ≤ c.val.toNat ∧ c.val.toNat ≤ 90 := by
  simp only [isCapital, Bool.and_eq_true, decide_eq_true_eq, Char.le_def, UInt32.le_iff_toNat_le]
  exact Iff.rfl

/-- The capitals follow each other in the order of their digits. -/
theorem capitalValue_add (capital : isCapital c = true) : capitalValue c + 64 = c.val.toNat := by
  have := isCapital_iff.1 capital
  have first : 'A'.val.toNat = 65 := rfl
  unfold capitalValue
  omega

/-- A capital is a digit from one to twenty-six. -/
theorem capitalValue_bounds (capital : isCapital c = true) :
    1 ≤ capitalValue c ∧ capitalValue c ≤ 26 := by
  have := isCapital_iff.1 capital
  have := capitalValue_add capital
  omega

/-- Capitals are ordered as the digits that they stand for. -/
theorem capitalValue_lt_iff (capital : isCapital c = true) (otherCapital : isCapital other = true) :
    capitalValue c < capitalValue other ↔ c < other := by
  rw [Char.lt_def, UInt32.lt_iff_toNat_lt, ← capitalValue_add capital,
    ← capitalValue_add otherCapital]
  omega

/-- The letter of a digit is a capital, and stands for one more. -/
theorem letterOf_capital :
    ∀ digit < 26,
      isCapital (letterOf digit) = true ∧ capitalValue (letterOf digit) = digit + 1 := by
  decide +kernel

/-- A capital is the letter of its digit. -/
theorem letterOf_capitalValue (capital : isCapital c = true) :
    letterOf (capitalValue c - 1) = c := by
  have digit := (capitalValue_bounds capital).1
  have code : 'A'.val.toNat + (capitalValue c - 1) = c.val.toNat := by
    have first : 'A'.val.toNat = 65 := rfl
    have := capitalValue_add capital
    omega
  rw [letterOf, code]
  exact Char.ofNat_toNat c

end Capital

section Value

variable {left right : Text}

/-- Another capital behind a row is another digit. -/
theorem capitalsValue_concat (capitals : Text) (c : Char) :
    capitalsValue (capitals ++ [c]) = 26 * capitalsValue capitals + capitalValue c := by
  rw [capitalsValue, List.foldl_append]
  rfl

/-- The letters of a count have its value. -/
theorem capitalsValue_reversedLetters (count : Nat) :
    capitalsValue (reversedLetters count).reverse = count := by
  fun_induction reversedLetters count with
  | case1 => rfl
  | case2 count positive ih =>
    have digit := (letterOf_capital _ (Nat.mod_lt (count - 1) (by decide))).2
    rw [List.reverse_cons, capitalsValue_concat, ih, digit]
    omega

/-- A row of capitals is the letters of its value. -/
theorem reversedLetters_capitalsValue {capitals : Text}
    (capital : ∀ c ∈ capitals, isCapital c = true) :
    reversedLetters (capitalsValue capitals) = capitals.reverse := by
  induction capitals using List.reverseRecOn with
  | nil => rw [reversedLetters]; rfl
  | append_singleton front c ih =>
    rw [List.forall_mem_append, List.forall_mem_singleton] at capital
    have digit := capitalValue_bounds capital.2
    have last : (26 * capitalsValue front + capitalValue c - 1) % 26 = capitalValue c - 1 := by
      omega
    have before : (26 * capitalsValue front + capitalValue c - 1) / 26 = capitalsValue front := by
      omega
    rw [capitalsValue_concat, reversedLetters, if_neg (by omega), last, before, ih capital.1,
      letterOf_capitalValue capital.2, List.reverse_append, List.reverse_singleton,
      List.singleton_append]

/-- A row of capitals that is not empty has a positive value. -/
theorem capitalsValue_pos {capitals : Text} (nonempty : capitals ≠ []) :
    0 < capitalsValue capitals := by
  rw [← List.dropLast_concat_getLast nonempty, capitalsValue_concat, capitalValue]
  omega

/-- Behind what was read, two rows of one length decide the order only if what was read is the
same. -/
theorem foldl_capitalValue_lt_iff (capital : ∀ c ∈ left, isCapital c = true)
    (otherCapital : ∀ c ∈ right, isCapital c = true) (length : left.length = right.length)
    (before beforeOther : Nat) :
    left.foldl (fun value c => 26 * value + capitalValue c) before <
        right.foldl (fun value c => 26 * value + capitalValue c) beforeOther ↔
      before < beforeOther ∨ before = beforeOther ∧ left < right := by
  induction left generalizing right before beforeOther with
  | nil =>
    rw [List.eq_nil_of_length_eq_zero length.symm]
    simp
  | cons c left ih =>
    cases right with
    | nil => cases length
    | cons other right =>
      rw [List.forall_mem_cons] at capital otherCapital
      have digit := capitalValue_bounds capital.1
      have otherDigit := capitalValue_bounds otherCapital.1
      have less := capitalValue_lt_iff capital.1 otherCapital.1
      have same : capitalValue c = capitalValue other ↔ c = other := by
        refine ⟨fun equal => ?_, congrArg _⟩
        rw [← letterOf_capitalValue capital.1, equal, letterOf_capitalValue otherCapital.1]
      -- Digits are at most the base, so that what was read before decides first.
      have first : 26 * before + capitalValue c < 26 * beforeOther + capitalValue other ↔
          before < beforeOther ∨ before = beforeOther ∧ capitalValue c < capitalValue other := by
        omega
      have tie : 26 * before + capitalValue c = 26 * beforeOther + capitalValue other ↔
          before = beforeOther ∧ capitalValue c = capitalValue other := by
        omega
      rw [List.foldl_cons, List.foldl_cons, ih capital.2 otherCapital.2 (Nat.succ.inj length),
        List.cons_lt_cons_iff, first, tie, less, same, and_or_left, or_assoc, and_assoc]

/-- The longer of two rows of capitals has the greater value. -/
theorem capitalsValue_lt_of_length (capital : ∀ c ∈ left, isCapital c = true)
    (otherCapital : ∀ c ∈ right, isCapital c = true) (shorter : left.length < right.length) :
    capitalsValue left < capitalsValue right := by
  have split := List.take_append_drop (right.length - left.length) right
  rw [← split, List.forall_mem_append] at otherCapital
  have nonempty : right.take (right.length - left.length) ≠ [] := by
    rw [Ne, List.take_eq_nil_iff, not_or]
    exact ⟨by omega, List.length_pos_iff.1 (by omega)⟩
  rw [← split, capitalsValue, capitalsValue, List.foldl_append]
  refine (foldl_capitalValue_lt_iff capital otherCapital.2 ?_ _ _).2 (.inl ?_)
  · rw [List.length_drop]
    omega
  · exact capitalsValue_pos nonempty

/-- Rows of capitals have their values in the order of their lengths, and for one length in
lexicographic order. -/
theorem capitalsValue_lt_iff (capital : ∀ c ∈ left, isCapital c = true)
    (otherCapital : ∀ c ∈ right, isCapital c = true) :
    capitalsValue left < capitalsValue right ↔
      left.length < right.length ∨ left.length = right.length ∧ left < right := by
  rcases Nat.lt_trichotomy left.length right.length with shorter | same | longer
  · exact iff_of_true (capitalsValue_lt_of_length capital otherCapital shorter) (.inl shorter)
  · have ordered := foldl_capitalValue_lt_iff capital otherCapital same 0 0
    simpa [capitalsValue, same] using ordered
  · have less := capitalsValue_lt_of_length otherCapital capital longer
    exact iff_of_false (by omega) (by omega)

end Value

section Letters

variable {count : UInt32}

/-- A positive count has the letters of its value. -/
theorem letters_of_pos (positive : 1 ≤ count) :
    letters count = (reversedLetters count.toNat).reverse := by
  have atLeast : 1 ≤ count.toNat := UInt32.le_iff_toNat_le.1 positive
  rw [letters_eq, Nat.max_eq_right atLeast]

/-- Letters are capitals. -/
theorem isCapital_of_mem_letters {c : Char} (mem : c ∈ letters count) : isCapital c = true := by
  rw [letters_eq, List.mem_reverse] at mem
  obtain ⟨digit, small, rfl⟩ := mem_reversedLetters mem
  exact (letterOf_capital digit small).1

/-- The letters of a positive count have its value. -/
theorem capitalsValue_letters (positive : 1 ≤ count) :
    capitalsValue (letters count) = count.toNat := by
  rw [letters_of_pos positive, capitalsValue_reversedLetters]

end Letters

/-- The letters of a positive count are a row of capitals with its value, and every row of capitals
whose value is a 32-bit count is its letters. So different counts have different letters, and the
smaller one has fewer, or as many that come first in lexicographic order. -/
theorem letters_numerate :
    (∀ count : UInt32, 1 ≤ count → letters count ≠ [] ∧
      (∀ c ∈ letters count, isCapital c = true) ∧ capitalsValue (letters count) = count.toNat) ∧
    (∀ capitals : Text, capitals ≠ [] → (∀ c ∈ capitals, isCapital c = true) →
      capitalsValue capitals < UInt32.size →
        letters (UInt32.ofNat (capitalsValue capitals)) = capitals) ∧
    (∀ left right : UInt32, 1 ≤ left → 1 ≤ right → letters left = letters right → left = right) ∧
    (∀ left right : UInt32, 1 ≤ left → 1 ≤ right →
      (left < right ↔ (letters left).length < (letters right).length ∨
        (letters left).length = (letters right).length ∧ letters left < letters right)) := by
  refine ⟨fun count positive => ?_, fun capitals nonempty capital fits => ?_,
    fun left right positive otherPositive same => ?_,
    fun left right positive otherPositive => ?_⟩
  · exact ⟨letters_ne_nil count, fun c => isCapital_of_mem_letters, capitalsValue_letters positive⟩
  · have value : (UInt32.ofNat (capitalsValue capitals)).toNat = capitalsValue capitals :=
      UInt32.toNat_ofNat_of_lt' fits
    have positive : 1 ≤ UInt32.ofNat (capitalsValue capitals) := by
      rw [UInt32.le_iff_toNat_le, value]
      exact capitalsValue_pos nonempty
    rw [letters_of_pos positive, value, reversedLetters_capitalsValue capital, List.reverse_reverse]
  · rw [← UInt32.toNat_inj, ← capitalsValue_letters positive, same,
      capitalsValue_letters otherPositive]
  · rw [UInt32.lt_iff_toNat_lt, ← capitalsValue_letters positive,
      ← capitalsValue_letters otherPositive]
    exact capitalsValue_lt_iff (fun c => isCapital_of_mem_letters)
      fun c => isCapital_of_mem_letters

/-- The greatest count has seven letters, and a letter more is written from the count behind ZZ
on. -/
theorem letters_numerate_carries :
    letters 4294967295 = "MWLQKWU".toList ∧ capitalsValue (letters 702) = 702 ∧
      (letters 702).length < (letters 703).length := by
  obtain ⟨valued, written, -, ordered⟩ := letters_numerate
  have greatest : letters 4294967295 = "MWLQKWU".toList :=
    written "MWLQKWU".toList (by decide) (by decide) (by decide)
  refine ⟨greatest, (valued 702 (by decide)).2.2, ?_⟩
  rcases (ordered 702 703 (by decide) (by decide)).1 (by decide) with fewer | ⟨same, -⟩
  · exact fewer
  · revert same
    decide +kernel

end TexStatements
