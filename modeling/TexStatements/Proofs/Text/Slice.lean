import TexStatements.Proofs.Group.Position
import TexStatements.Proofs.Text.Search

/-!
# Slices

A slice of a text is what is between two offsets. It can be taken only if both lie between
characters and are in order; otherwise the offsets are the error. A place of a text is a suffix of
it, and between the offsets of two places a slice can always be taken: it is what the first place
has in front of the second (`sliceBetween_offsetOf`).
-/
namespace TexStatements

/-- The offsets of a slice that cannot be taken. -/
structure SliceError where
  /-- Where the slice was to start. -/
  start : Nat
  /-- Where the slice was to stop. -/
  stop : Nat

/-- What is made of slices, if all of them can be taken. -/
abbrev Sliced (α : Type) := Except SliceError α

/-- What slices are made into is made of what they are. -/
@[simp] theorem Sliced.ok_bind {α β : Type} (value : α) (next : α → Sliced β) :
    (Except.ok value : Sliced α) >>= next = next value := rfl

namespace Text

/-- The text between two offsets. They have to be in order, and neither may be behind the text or
inside a character. -/
def sliceBetween (text : Text) (start stop : Nat) : Sliced Text :=
  if start ≤ stop ∧ text.isBoundary start ∧ text.isBoundary stop then .ok (text.slice start stop)
  else .error ⟨start, stop⟩

/-- The text from an offset on. -/
def sliceFrom (text : Text) (start : Nat) : Sliced Text :=
  text.sliceBetween start text.byteLength

/-- Byte offset of the first occurrence of a character. -/
def firstOffset? (text : Text) (c : Char) : Option Nat :=
  if c ∈ text then some (byteLength (text.takeWhile (· != c))) else none

variable {text place rest : Text} {first c : Char} {offset : Nat}

/-- A slice that can be taken starts and stops between characters. -/
theorem boundaries_of_sliceBetween {start stop : Nat} {slice : Text}
    (taken : text.sliceBetween start stop = .ok slice) :
    text.isBoundary start = true ∧ text.isBoundary stop = true := by
  rw [sliceBetween] at taken
  split at taken
  · rename_i range
    exact range.2
  · cases taken

/-- A slice that would split a character cannot be taken, nor one behind the text. -/
example : sliceBetween "aé".toList 1 2 = .error ⟨1, 2⟩ ∧
    sliceBetween "aé".toList 1 3 = .ok "é".toList ∧
    sliceBetween "aé".toList 1 4 = .error ⟨1, 4⟩ := ⟨rfl, rfl, rfl⟩

/-- The offset of a place lies between characters. -/
theorem isBoundary_offsetOf (suffix : rest <:+ text) :
    text.isBoundary (text.offsetOf rest) = true := by
  obtain ⟨front, rfl⟩ := suffix
  rw [offsetOf_append]
  exact isBoundary_iff.2 ⟨front, rest, rfl, rfl⟩

/-- The place at the offset of a place is that place. -/
theorem fromByte_offsetOf (suffix : rest <:+ text) : text.fromByte (text.offsetOf rest) = rest := by
  obtain ⟨front, rfl⟩ := suffix
  rw [offsetOf_append, fromByte_byteLength]

/-- The offsets between characters are those of places. -/
theorem exists_place (boundary : text.isBoundary offset = true) :
    ∃ rest, rest <:+ text ∧ text.offsetOf rest = offset := by
  obtain ⟨front, rest, rfl, rfl⟩ := isBoundary_iff.1 boundary
  exact ⟨rest, List.suffix_append front rest, offsetOf_append front rest⟩

/-- In front of a text stands nothing. -/
@[simp] theorem before_self (text : Text) : text.before text = [] := before_append [] text

/-- The offset of the whole text. -/
@[simp] theorem offsetOf_self (text : Text) : text.offsetOf text = 0 := Nat.sub_self _

/-- The offset of the end. -/
@[simp] theorem offsetOf_nil (text : Text) : text.offsetOf [] = text.byteLength := rfl

/-- A later place is behind an earlier one by the bytes between them. -/
theorem offsetOf_add (suffix : place <:+ text) (behind : rest <:+ place) :
    text.offsetOf rest = text.offsetOf place + (place.before rest).byteLength := by
  obtain ⟨front, rfl⟩ := suffix
  obtain ⟨between, rfl⟩ := behind
  rw [before_append, offsetOf_append, ← List.append_assoc, offsetOf_append, byteLength_append]

/-- In front of a place stands what is in front of an earlier one, and what is between. -/
theorem before_append_front {front : Text} (suffix : front ++ rest <:+ place) :
    place.before rest = place.before (front ++ rest) ++ front := by
  obtain ⟨more, rfl⟩ := suffix
  rw [before_append, ← List.append_assoc, before_append]

/-- A place is behind an earlier one by the bytes of the text between them. -/
theorem offsetOf_append_add {front : Text} (suffix : front ++ rest <:+ text) :
    text.offsetOf (front ++ rest) + front.byteLength = text.offsetOf rest := by
  rw [offsetOf_add suffix (List.suffix_append front rest), before_append]

/-- The next place is behind a place by the bytes of its character. -/
theorem offsetOf_tail (suffix : first :: rest <:+ text) :
    text.offsetOf rest = text.offsetOf (first :: rest) + first.utf8Size := by
  rw [← List.singleton_append] at suffix
  rw [← offsetOf_append_add suffix, List.singleton_append, byteLength_cons, byteLength_nil,
    Nat.add_zero]

/-- Later places have greater offsets. -/
theorem offsetOf_lt_iff (suffix : place <:+ text) (other : rest <:+ text) :
    text.offsetOf place < text.offsetOf rest ↔ rest.length < place.length := by
  constructor
  · intro less
    rcases Nat.lt_or_ge rest.length place.length with shorter | longer
    · exact shorter
    have behind : place <:+ rest := List.suffix_of_suffix_length_le suffix other (by omega)
    have later := offsetOf_add other behind
    omega
  · intro shorter
    have behind : rest <:+ place := List.suffix_of_suffix_length_le other suffix (by omega)
    have later := offsetOf_add suffix behind
    have nonempty : place.before rest ≠ [] := by
      intro empty
      have whole := before_append_suffix behind
      rw [empty, List.nil_append] at whole
      rw [whole] at shorter
      omega
    have positive := byteLength_pos nonempty
    omega

/-- Between two places a slice can be taken. -/
theorem sliceBetween_offsetOf (suffix : place <:+ text) (behind : rest <:+ place) :
    text.sliceBetween (text.offsetOf place) (text.offsetOf rest) = .ok (place.before rest) := by
  have ordered : text.offsetOf place ≤ text.offsetOf rest := by
    rw [offsetOf_add suffix behind]
    omega
  rw [sliceBetween, if_pos ⟨ordered, isBoundary_offsetOf suffix,
    isBoundary_offsetOf (behind.trans suffix)⟩]
  obtain ⟨front, rfl⟩ := suffix
  obtain ⟨between, rfl⟩ := behind
  rw [before_append, offsetOf_append, ← List.append_assoc, offsetOf_append, slice_byteLength]

/-- The text in front of a place, from an earlier one on, can be taken as a slice. -/
theorem sliceBetween_append {front : Text} (suffix : front ++ rest <:+ text) :
    text.sliceBetween (text.offsetOf (front ++ rest)) (text.offsetOf rest) = .ok front := by
  rw [sliceBetween_offsetOf suffix (List.suffix_append front rest), before_append]

/-- From a place on a slice can be taken. -/
theorem sliceFrom_offsetOf (suffix : rest <:+ text) :
    text.sliceFrom (text.offsetOf rest) = .ok rest := by
  have whole : before (rest ++ []) [] = rest := before_append rest []
  rw [List.append_nil] at whole
  rw [sliceFrom, ← offsetOf_nil, sliceBetween_offsetOf suffix (List.nil_suffix), whole]

/-- A character that does not occur has no offset. -/
theorem firstOffset?_of_not_mem (absent : c ∉ text) : text.firstOffset? c = none := if_neg absent

/-- The first occurrence of a character is behind the characters before it. -/
theorem firstOffset?_append {front : Text} (absent : c ∉ front) (rest : Text) :
    (front ++ c :: rest).firstOffset? c = some front.byteLength := by
  have others : ∀ other ∈ front, (other != c) = true := by
    intro other mem
    exact bne_iff_ne.2 fun same => absent (same ▸ mem)
  have stops : ∀ first ∈ (c :: rest).head?, (first != c) = false := by simp
  rw [firstOffset?, if_pos (List.mem_append_right front (List.mem_cons_self ..)),
    takeWhile_run others stops]

end Text
end TexStatements
