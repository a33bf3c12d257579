import TexStatements.Source.Decode

/-!
# The order of texts

Texts are put in order by their code points. UTF-8 keeps that order, because a smaller code point
has smaller bytes: sorted texts are in the order of their bytes.
-/
namespace TexStatements
namespace Utf8

/-- Bytes are compared as the numbers that they are. -/
theorem cons_lt_cons {low high : Nat} (lowByte : low < 256) (highByte : high < 256)
    (after behind : List UInt8) : UInt8.ofNat low :: after < UInt8.ofNat high :: behind ↔
      low < high ∨ low = high ∧ after < behind := by
  have lowValue : (UInt8.ofNat low).toNat = low := by
    rw [UInt8.toNat_ofNat', Nat.mod_eq_of_lt lowByte]
  have highValue : (UInt8.ofNat high).toNat = high := by
    rw [UInt8.toNat_ofNat', Nat.mod_eq_of_lt highByte]
  rw [List.cons_lt_cons_iff, UInt8.lt_iff_toNat_lt, ← UInt8.toNat_inj, lowValue, highValue]

/-- The bytes of a smaller character come before those of a greater one, whatever follows. -/
theorem encodeChar_lt {left right : Char} (less : left.val.toNat < right.val.toNat)
    (after behind : List UInt8) :
    String.utf8EncodeChar left ++ after < String.utf8EncodeChar right ++ behind := by
  have bound : right.val.toNat < 0x110000 := by
    rcases right.valid with low | high
    · exact Nat.lt_trans low (by decide)
    · exact high.2
  unfold String.utf8EncodeChar
  dsimp only
  generalize left.val.toNat = low at less ⊢
  generalize right.val.toNat = high at less bound ⊢
  -- The smaller one has as many bytes or fewer; fewer bytes start with a smaller one.
  by_cases one : high ≤ 127
  · have lowOne : low ≤ 127 := by omega
    rw [if_pos one, if_pos lowOne]
    simp (disch := omega) only [List.cons_append, cons_lt_cons]
    omega
  rw [if_neg one]
  by_cases lowOne : low ≤ 127
  · rw [if_pos lowOne]
    split
    · simp (disch := omega) only [List.cons_append, cons_lt_cons]
      omega
    · split
      · simp (disch := omega) only [List.cons_append, cons_lt_cons]
        omega
      · simp (disch := omega) only [List.cons_append, cons_lt_cons]
        omega
  rw [if_neg lowOne]
  by_cases two : high ≤ 2047
  · have lowTwo : low ≤ 2047 := by omega
    rw [if_pos two, if_pos lowTwo]
    simp (disch := omega) only [List.cons_append, cons_lt_cons]
    omega
  rw [if_neg two]
  by_cases lowTwo : low ≤ 2047
  · rw [if_pos lowTwo]
    split
    · simp (disch := omega) only [List.cons_append, cons_lt_cons]
      omega
    · simp (disch := omega) only [List.cons_append, cons_lt_cons]
      omega
  rw [if_neg lowTwo]
  by_cases three : high ≤ 65535
  · have lowThree : low ≤ 65535 := by omega
    rw [if_pos three, if_pos lowThree]
    simp (disch := omega) only [List.cons_append, cons_lt_cons]
    omega
  rw [if_neg three]
  by_cases lowThree : low ≤ 65535
  · rw [if_pos lowThree]
    simp (disch := omega) only [List.cons_append, cons_lt_cons]
    omega
  rw [if_neg lowThree]
  simp (disch := omega) only [List.cons_append, cons_lt_cons]
  have lowDigits : low / 4096 / 64 = low / 262144 := Nat.div_div_eq_div_mul low 4096 64
  have highDigits : high / 4096 / 64 = high / 262144 := Nat.div_div_eq_div_mul high 4096 64
  have lowMiddle : low / 64 / 64 = low / 4096 := Nat.div_div_eq_div_mul low 64 64
  have highMiddle : high / 64 / 64 = high / 4096 := Nat.div_div_eq_div_mul high 64 64
  have lowTop : low / 262144 % 8 = low / 262144 := Nat.mod_eq_of_lt (by omega)
  have highTop : high / 262144 % 8 = high / 262144 := Nat.mod_eq_of_lt (by omega)
  rw [lowTop, highTop]
  omega

end Utf8

namespace Text

/-- Order by code points is reflexive. -/
theorem atMost_refl (text : Text) : atMost text text = true := by
  induction text with
  | nil => rfl
  | cons first rest ih => simp [atMost, ih]

/-- Of two texts one comes at most where the other does. -/
theorem atMost_total (left right : Text) : (atMost left right || atMost right left) = true := by
  induction left generalizing right with
  | nil => rfl
  | cons first rest ih =>
    cases right with
    | nil => simp [atMost]
    | cons second others =>
      by_cases same : first = second
      · simpa [atMost, same] using ih others
      · have different : ¬second = first := fun equal => same equal.symm
        simp only [atMost, if_neg same, if_neg different, Bool.or_eq_true, decide_eq_true_eq,
          UInt32.le_iff_toNat_le]
        omega

/-- A text that comes before another one has smaller bytes. -/
theorem encode_lt_of_atMost {left right : Text} (ordered : atMost left right = true)
    (different : left ≠ right) : Utf8.encode left < Utf8.encode right := by
  induction left generalizing right with
  | nil =>
    cases right with
    | nil => exact absurd rfl different
    | cons second others =>
      have nonempty : Utf8.encode (second :: others) ≠ [] := by simp [Utf8.encode]
      obtain ⟨byte, bytes, written⟩ := List.exists_cons_of_ne_nil nonempty
      rw [written]
      exact List.nil_lt_cons byte bytes
  | cons first rest ih =>
    cases right with
    | nil => cases ordered
    | cons second others =>
      rw [Utf8.encode, Utf8.encode, List.flatMap_cons, List.flatMap_cons]
      by_cases same : first = second
      · subst same
        rw [atMost, if_pos rfl] at ordered
        exact List.append_left_lt (ih ordered fun equal => different (by rw [equal]))
      · rw [atMost, if_neg same, decide_eq_true_eq, UInt32.le_iff_toNat_le] at ordered
        have unequal : first.val.toNat ≠ second.val.toNat := fun equal =>
          same (Char.val_inj.1 (UInt32.toNat_inj.1 equal))
        exact Utf8.encodeChar_lt (by omega) _ _

/-- Order by code points is the order of the bytes. -/
theorem atMost_iff {left right : Text} :
    atMost left right = true ↔ left = right ∨ Utf8.encode left < Utf8.encode right := by
  constructor
  · intro ordered
    by_cases same : left = right
    · exact .inl same
    · exact .inr (encode_lt_of_atMost ordered same)
  · rintro (rfl | less)
    · exact atMost_refl left
    · rcases Bool.or_eq_true_iff.1 (atMost_total left right) with ordered | turned
      · exact ordered
      · by_cases same : right = left
        · exact same ▸ atMost_refl left
        · exact absurd (encode_lt_of_atMost turned same) (List.lt_asymm less)

/-- Order by code points is transitive. -/
theorem atMost_trans (left middle right : Text) (first : atMost left middle = true)
    (second : atMost middle right = true) : atMost left right = true := by
  rw [atMost_iff] at *
  rcases first with rfl | less
  · exact second
  · rcases second with rfl | more
    · exact .inr less
    · exact .inr (List.lt_trans less more)

/-- Texts of which each comes at most where the other does are the same. -/
theorem atMost_antisymm {left right : Text} (first : atMost left right = true)
    (second : atMost right left = true) : left = right := by
  rcases atMost_iff.1 first with same | less
  · exact same
  · rcases atMost_iff.1 second with same | more
    · exact same.symm
    · exact absurd more (List.lt_asymm less)

/-- Texts in order are what they are sorted to. -/
theorem sort_eq {texts sorted : List Text} (perm : texts.Perm sorted)
    (ordered : sorted.Pairwise fun left right => atMost left right = true) :
    sort texts = sorted :=
  List.Perm.eq_of_pairwise (fun _ _ _ _ => atMost_antisymm)
    (List.pairwise_mergeSort atMost_trans atMost_total texts) ordered
    ((List.mergeSort_perm texts atMost).trans perm)

/-- Sorting keeps the texts. -/
@[simp] theorem mem_sort {text : Text} {texts : List Text} : text ∈ sort texts ↔ text ∈ texts :=
  (List.mergeSort_perm texts atMost).mem_iff

/-- Different texts are sorted by their bytes. -/
theorem sort_pairwise {texts : List Text} (distinct : texts.Nodup) :
    (sort texts).Pairwise fun left right => Utf8.encode left < Utf8.encode right := by
  have ordered := List.pairwise_mergeSort atMost_trans atMost_total texts
  have different : (sort texts).Nodup := (List.mergeSort_perm texts atMost).nodup_iff.2 distinct
  exact (ordered.and different).imp fun both => encode_lt_of_atMost both.1 both.2

end Text
end TexStatements
