import Mathlib.Data.List.DropRight
import TexStatements.Proofs.Text.Slice

/-!
# Readers by offset

A reader that is asked by the offset of a place answers with the offsets of the places that it comes
to, so all that it answers can be used for slices. The inside of a group is the slice between its
delimiters, and the name of a control sequence the slice from its backslash to its end.
-/
namespace TexStatements
namespace Text

variable {text place rest inner after : Text} {start index : Nat}

/-- An offset can be used for slices of a text from another one on: it is not in front of that one,
not behind the text, and not inside a character. -/
structure IsSlicePosition (text : Text) (start index : Nat) : Prop where
  /-- It is not in front of the other one. -/
  notBefore : start ≤ index
  /-- It is not behind the text. -/
  inside : index ≤ text.byteLength
  /-- It is not inside a character. -/
  boundary : text.isBoundary index = true

/-- Offsets of later places can be used for slices. -/
theorem isSlicePosition_offsetOf (suffix : place <:+ text) (behind : rest <:+ place) :
    text.IsSlicePosition (text.offsetOf place) (text.offsetOf rest) where
  notBefore := by
    rw [offsetOf_add suffix behind]
    exact Nat.le_add_right ..
  inside := Nat.sub_le ..
  boundary := isBoundary_offsetOf (behind.trans suffix)

/-- Behind blanks there are no more blanks. -/
@[simp] theorem trimStart_trimStart (text : Text) : text.trimStart.trimStart = text.trimStart :=
  List.dropWhile_idempotent isBlank text

/-- Skipping blanks leads from offset to offset. -/
theorem afterBlanks_offsetOf (suffix : rest <:+ text) :
    text.afterBlanks (text.offsetOf rest) = text.offsetOf rest.trimStart := by
  rw [afterBlanks, if_pos (isBoundary_offsetOf suffix), fromByte_offsetOf suffix]

/-- What is read, with the offset of the place behind it. -/
def offsetBehind {α : Type} (text : Text) (found : α × Text) : α × Nat :=
  (found.1, text.offsetOf found.2)

/-- Reading a control sequence leads from offset to offset. -/
theorem controlSequenceAt?_offsetOf (suffix : rest <:+ text) :
    text.controlSequenceAt? (text.offsetOf rest) =
      (ControlSequence.read? rest).map text.offsetBehind := by
  rw [controlSequenceAt?, if_pos (isBoundary_offsetOf suffix), fromByte_offsetOf suffix]
  rfl

/-- The name of a control sequence is the slice from its backslash to its end. -/
theorem sliceBetween_of_read? {name : Text} (suffix : rest <:+ text)
    (read : ControlSequence.read? rest = some (name, after)) :
    text.sliceBetween (text.offsetOf rest + 1) (text.offsetOf after) = .ok name := by
  have whole := ControlSequence.read?_eq_append read
  subst whole
  have behind : name ++ after <:+ text := (List.suffix_cons '\\' _).trans suffix
  have slice := sliceBetween_append behind
  rwa [offsetOf_tail suffix] at slice

/-- Reading a group leads from offset to offset. -/
theorem groupAt_offsetOf (suffix : rest <:+ text) (delimiters : Group.Delimiters) :
    text.groupAt delimiters (text.offsetOf rest) =
      spanOf text rest.trimStart (Group.readGroup delimiters rest) := by
  have start : rest.trimStart <:+ text := (trimStart_suffix rest).trans suffix
  rw [groupAt, afterBlanks_offsetOf suffix, fromByte_offsetOf start, Group.readGroup,
    trimStart_trimStart, Group.readGroup]

namespace GroupSpan

/-- The text between the delimiters of a group, as a slice. -/
def slice (text : Text) (span : GroupSpan) : Sliced Text :=
  text.sliceBetween (span.opening + 1) span.closing

/-- The offsets of a group that is looked for from an offset on can be used for slices, the
delimiters stand in their order, and the inside is the slice between them. -/
structure Fits (text : Text) (start : Nat) (span : GroupSpan) : Prop where
  /-- The offset of the opening delimiter can be used. -/
  opening : text.IsSlicePosition start span.opening
  /-- The offset of the closing delimiter can be used. -/
  closing : text.IsSlicePosition start span.closing
  /-- The offset behind the group can be used. -/
  stop : text.IsSlicePosition start span.stop
  /-- The group opens before it closes. -/
  opensBefore : span.opening < span.closing
  /-- The group closes before it stops. -/
  closesBefore : span.closing < span.stop
  /-- The inside is a slice. -/
  inner : slice text span = .ok span.inner

/-- A group between delimiters of one byte fits. -/
theorem fits_of_eq_append {opens closes : Char} (suffix : rest <:+ text)
    (whole : rest.trimStart = opens :: (inner ++ closes :: after)) (one : opens.utf8Size = 1)
    (last : closes.utf8Size = 1) :
    Fits text (text.offsetOf rest) ⟨text.offsetOf rest.trimStart,
      text.offsetOf rest.trimStart + 1 + inner.byteLength, text.offsetOf after, inner⟩ := by
  have blanks : rest.trimStart <:+ rest := trimStart_suffix rest
  have group : opens :: (inner ++ closes :: after) <:+ rest := whole ▸ blanks
  have inside : inner ++ closes :: after <:+ rest := (List.suffix_cons opens _).trans group
  have delimiter : closes :: after <:+ inner ++ closes :: after := List.suffix_append inner _
  have behind : after <:+ rest := ((List.suffix_cons closes after).trans delimiter).trans inside
  have opened : text.offsetOf (inner ++ closes :: after) = text.offsetOf rest.trimStart + 1 := by
    rw [offsetOf_tail (group.trans suffix), whole, one]
  have closed : text.offsetOf (closes :: after) =
      text.offsetOf rest.trimStart + 1 + inner.byteLength := by
    rw [← offsetOf_append_add (inside.trans suffix), opened]
  have stopped : text.offsetOf after =
      text.offsetOf rest.trimStart + 1 + inner.byteLength + 1 := by
    rw [offsetOf_tail ((delimiter.trans inside).trans suffix), closed, last]
  refine ⟨isSlicePosition_offsetOf suffix blanks, ?_, isSlicePosition_offsetOf suffix behind, ?_,
    ?_, ?_⟩
  · rw [← closed]
    exact isSlicePosition_offsetOf suffix (delimiter.trans inside)
  · dsimp only
    omega
  · dsimp only
    omega
  · have between := sliceBetween_append (inside.trans suffix)
    rwa [opened, closed] at between

end GroupSpan

/-- A whole group fits. -/
theorem fits_of_readGroup {delimiters : Group.Delimiters} (suffix : rest <:+ text)
    (read : Group.readGroup delimiters rest = .closed inner after) :
    GroupSpan.Fits text (text.offsetOf rest) ⟨text.offsetOf rest.trimStart,
      text.offsetOf rest.trimStart + 1 + inner.byteLength, text.offsetOf after, inner⟩ := by
  have found : Group.group? delimiters rest = some (inner, after) := by rw [Group.group?, read]; rfl
  have whole := Group.group?_eq_append found
  cases delimiters with
  | braces => exact GroupSpan.fits_of_eq_append suffix whole rfl rfl
  | brackets => exact GroupSpan.fits_of_eq_append suffix whole rfl rfl

/-- A group from an offset on, behind blanks: the slice between its delimiters, and the offset
behind it. -/
def groupSlice (text : Text) (delimiters : Group.Delimiters) (start : Nat) :
    Sliced (Option (Text × Nat)) :=
  match text.groupAt delimiters start with
  | .closed span => do
    let inner ← span.slice text
    return some (inner, span.stop)
  | _ => return none

/-- The inside of a group can be taken as a slice. -/
theorem groupSlice_offsetOf (suffix : rest <:+ text) (delimiters : Group.Delimiters) :
    text.groupSlice delimiters (text.offsetOf rest) =
      .ok ((Group.group? delimiters rest).map text.offsetBehind) := by
  rw [groupSlice, groupAt_offsetOf suffix, Group.group?]
  cases read : Group.readGroup delimiters rest with
  | absent => rfl
  | unterminated => rfl
  | closed inner after =>
    simp only [spanOf, (fits_of_readGroup suffix read).inner]
    rfl

end Text
end TexStatements
