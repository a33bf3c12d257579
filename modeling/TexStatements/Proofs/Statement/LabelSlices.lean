import TexStatements.Proofs.Statement.LabelRemoval
import TexStatements.Proofs.Text.Offset

/-!
# Label removal by slices

Labels are looked for here by their control word and read and taken out by offset: what is looked at
behind the control word, the name of the label and what is copied in front of it are slices. All
these slices can be taken, and the body and its label are those that are read from place to place
(`ofRawBySlices_eq`).
-/
namespace TexStatements
namespace StatementBody

/-- The reader of the control word of labels. More letters may follow it. -/
def labelWord : Reader Unit := Reader.literal "\\label".toList (by decide)

/-- Offsets of the control words of labels in a text, from a place on: where each starts and where
it stops. -/
def labelWords (text place : Text) : List (Nat × Nat) :=
  (labelWord.occurrences place).map fun found =>
    (text.offsetOf found.place, text.offsetOf found.rest)

/-- Take labels out, given where their control words are: what is left of the text from an offset
on, and the first label. A control word in front of that offset is inside a label that is already
taken out. -/
def removeLabels (text : Text) : List (Nat × Nat) → Nat → Sliced (Text × Option Text)
  | [], pending => do
    let rest ← text.sliceFrom pending
    return (rest, none)
  | (start, stop) :: words, pending => do
    if start < pending then removeLabels text words pending
    else
      let behind ← text.sliceFrom stop
      if endsControlWord behind then
        match ← text.groupSlice .braces stop with
        | none => removeLabels text words pending
        | some (value, groupEnd) =>
          let front ← text.sliceBetween pending start
          let (rest, label?) ← removeLabels text words groupEnd
          return (front ++ rest, value.nonBlank?.or label?)
      else removeLabels text words pending

/-- The body and label of a statement, from the text between its tags, by slices. -/
def ofRawBySlices (raw : Text) : Sliced StatementBody := do
  let joined := joinLines raw
  let (rest, label?) ← removeLabels joined (labelWords joined joined) 0
  return { text := rest.trim, label? }

/-- What is left of a text without its labels, and the first of them that is not blank. -/
def withoutLabels (text : Text) : Text × Option Text :=
  (unlabelled text, (label.occurrences text).findSome? fun found => found.value.nonBlank?)

variable {text place rest front value : Text}

/-- Nothing is left of an empty text. -/
theorem withoutLabels_nil : withoutLabels [] = ([], none) := by
  rw [withoutLabels, unlabelled_nil, Reader.occurrences]
  rfl

/-- A front without labels is kept. -/
theorem withoutLabels_append (passed : label.SilentOver front rest) :
    withoutLabels (front ++ rest) = (front ++ (withoutLabels rest).1, (withoutLabels rest).2) := by
  rw [withoutLabels, unlabelled, Reader.replaceAll_append _ passed,
    Reader.occurrences_append passed]
  rfl

/-- A label is taken out, and it is the first one if it is not blank. -/
theorem withoutLabels_of_read (read : label.read place = some (value, rest)) :
    withoutLabels place = ((withoutLabels rest).1, value.nonBlank?.or (withoutLabels rest).2) := by
  rw [withoutLabels, unlabelled_of_read read, Reader.occurrences_of_read read, List.findSome?_cons]
  cases value.nonBlank? with
  | none => rfl
  | some name => rfl

/-- The control word of a label is read where it stands. -/
theorem labelWord_read_eq_some_iff :
    labelWord.read place = some ((), rest) ↔ place = "\\label".toList ++ rest := by
  simp [labelWord, Reader.literal, Text.dropLiteral?_eq_some_iff]

/-- A label is read behind its control word, if that is complete. -/
theorem label_read_labelWord (rest : Text) :
    label.read ("\\label".toList ++ rest) =
      if endsControlWord rest then Group.braced? rest else none := by
  have whole : "\\label".toList ++ rest = '\\' :: ("label".toList ++ rest) := rfl
  have letters : ∀ letter ∈ "label".toList, isControlLetter letter = true := by decide
  rw [whole, label_read_backslash, List.takeWhile_append_of_pos letters,
    List.dropWhile_append_of_pos letters]
  by_cases ends : endsControlWord rest = true
  · have complete := endsControlWord_eq_true_iff.1 ends
    have kept := List.takeWhile_append_dropWhile (p := isControlLetter) (l := rest)
    rw [complete, List.nil_append] at kept
    rw [complete, kept, List.append_nil, if_pos rfl, if_pos ends]
  · have longer : "label".toList ++ rest.takeWhile isControlLetter ≠ "label".toList := by
      intro same
      exact ends (endsControlWord_eq_true_iff.2 (List.append_right_eq_self.1 same))
    rw [if_neg longer, if_neg ends]

/-- Where no control word of a label stands no label is read. -/
theorem label_read_of_labelWord (unread : labelWord.read place = none) :
    label.read place = none := by
  cases read : label.read place with
  | none => rfl
  | some found =>
    obtain ⟨blanks, -, whole, -⟩ := label_read_eq_some_iff.1 read
    have word : labelWord.read place = some ((), blanks ++ '{' :: (found.1 ++ '}' :: found.2)) := by
      rw [labelWord_read_eq_some_iff, whole, labelText]
      simp
    rw [word] at unread
    cases unread

/-- Taking labels out, where the control words from a place on are given: what has not been decided
about may start in front of the place, or behind it. -/
structure Removes (text place : Text) (words : List (Nat × Nat)) : Prop where
  /-- What is in front of the place is copied. -/
  copies : ∀ pending : Text, pending <:+ text → place <:+ pending →
    removeLabels text words (text.offsetOf pending) =
      .ok (pending.before place ++ (withoutLabels place).1, (withoutLabels place).2)
  /-- What is in front of a later place has been taken out. -/
  skips : ∀ pending : Text, pending <:+ place →
    removeLabels text words (text.offsetOf pending) = .ok (withoutLabels pending)

/-- The given control words are also those from a place on in front of which no label stands. -/
theorem Removes.append {words : List (Nat × Nat)} (removes : Removes text rest words)
    (suffix : front ++ rest <:+ text) (passed : label.SilentOver front rest) :
    Removes text (front ++ rest) words where
  copies := by
    intro pending within behind
    rw [removes.copies pending within ((List.suffix_append front rest).trans behind),
      Text.before_append_front behind, withoutLabels_append passed]
    simp
  skips := by
    intro pending behind
    rcases Nat.le_total pending.length rest.length with shorter | longer
    · exact removes.skips pending
        (List.suffix_of_suffix_length_le behind (List.suffix_append front rest) shorter)
    · -- The later place is within the front, of which only what is behind it is copied.
      obtain ⟨between, rfl⟩ :=
        List.suffix_of_suffix_length_le (List.suffix_append front rest) behind longer
      have inside : between <:+ front := by
        obtain ⟨before, whole⟩ := behind
        rw [← List.append_assoc] at whole
        exact ⟨before, List.append_cancel_right whole⟩
      have silent : label.SilentOver between rest := fun place suffix nonempty =>
        passed place (suffix.trans inside) nonempty
      rw [removes.copies _ (behind.trans suffix) (List.suffix_append between rest),
        Text.before_append, withoutLabels_append silent]

/-- At the end of a text nothing is left to take out. -/
theorem removes_nil (text : Text) : Removes text [] [] where
  copies := by
    intro pending within _
    have whole := Text.before_append_suffix (List.nil_suffix (l := pending))
    rw [List.append_nil] at whole
    rw [removeLabels, Text.sliceFrom_offsetOf within, withoutLabels_nil, whole, List.append_nil]
    rfl
  skips := by
    intro pending behind
    rw [List.suffix_nil.1 behind, removeLabels, Text.sliceFrom_offsetOf (List.nil_suffix ..),
      withoutLabels_nil]
    rfl

section Word

variable {words : List (Nat × Nat)}

/-- Behind the control word of a label stands no label. -/
theorem silentOver_labelLetters (rest : Text) : label.SilentOver "label".toList rest :=
  guarded_label.readsCommands.silentOver rest (by decide)

/-- At the control word of a label, what is in front of it is copied, and the label is taken out if
there is one. -/
theorem Removes.copies_labelWord (removes : Removes text rest words)
    (suffix : "\\label".toList ++ rest <:+ text) {pending : Text} (within : pending <:+ text)
    (behind : "\\label".toList ++ rest <:+ pending) :
    removeLabels text ((text.offsetOf ("\\label".toList ++ rest), text.offsetOf rest) :: words)
        (text.offsetOf pending) =
      .ok (pending.before ("\\label".toList ++ rest) ++
        (withoutLabels ("\\label".toList ++ rest)).1,
        (withoutLabels ("\\label".toList ++ rest)).2) := by
  have behindWord : rest <:+ text := (List.suffix_append _ rest).trans suffix
  have undecided : ¬text.offsetOf ("\\label".toList ++ rest) < text.offsetOf pending := by
    rw [Text.offsetOf_lt_iff suffix within]
    exact Nat.not_lt.2 behind.length_le
  rw [removeLabels, if_neg undecided, Text.sliceFrom_offsetOf behindWord, Sliced.ok_bind]
  have kept (unread : label.read ("\\label".toList ++ rest) = none) :
      Removes text ("\\label".toList ++ rest) words :=
    removes.append suffix (Reader.silentOver_cons.2 ⟨unread, silentOver_labelLetters rest⟩)
  by_cases ends : endsControlWord rest = true
  · rw [if_pos ends, Text.groupSlice_offsetOf behindWord, Sliced.ok_bind]
    cases group : Group.group? .braces rest with
    | none =>
      have unread : label.read ("\\label".toList ++ rest) = none := by
        rw [label_read_labelWord, if_pos ends, Group.braced?, group]
      exact (kept unread).copies pending within behind
    | some found =>
      obtain ⟨value, after⟩ := found
      have read : label.read ("\\label".toList ++ rest) = some (value, after) := by
        rw [label_read_labelWord, if_pos ends, Group.braced?, group]
      have later : after <:+ rest := (Group.group?_advances group).suffix
      simp only [Option.map_some, Text.offsetBehind, Text.sliceBetween_offsetOf within behind,
        Sliced.ok_bind, removes.skips after later, withoutLabels_of_read read]
      rfl
  · rw [if_neg ends]
    exact (kept (by rw [label_read_labelWord, if_neg ends])).copies pending within behind

/-- Labels are taken out behind the control word of a label, and the label itself if it is one. -/
theorem Removes.labelWord (removes : Removes text rest words)
    (suffix : "\\label".toList ++ rest <:+ text) :
    Removes text ("\\label".toList ++ rest)
      ((text.offsetOf ("\\label".toList ++ rest), text.offsetOf rest) :: words) where
  copies := fun _ within behind => removes.copies_labelWord suffix within behind
  skips := by
    intro pending behind
    obtain rfl | later := List.suffix_cons_iff.1 behind
    · have whole := removes.copies_labelWord suffix suffix (List.suffix_refl _)
      rwa [Text.before_self] at whole
    · have decided : text.offsetOf ("\\label".toList ++ rest) < text.offsetOf pending :=
        (Text.offsetOf_lt_iff suffix (behind.trans suffix)).2 (Nat.lt_succ_of_le later.length_le)
      have letters : "label".toList ++ rest <:+ text := (List.suffix_cons ..).trans suffix
      rw [removeLabels, if_pos decided]
      exact (removes.append letters (silentOver_labelLetters rest)).skips pending later

end Word

/-- Labels are taken out behind every place, given the control words from there on. -/
theorem removes_labelWords (suffix : place <:+ text) :
    Removes text place (labelWords text place) := by
  induction size : place.length using Nat.strongRecOn generalizing place with
  | ind length ih =>
    subst size
    cases read : labelWord.read place with
    | none =>
      cases place with
      | nil =>
        have none : labelWords text [] = [] := by rw [labelWords, Reader.occurrences]; rfl
        rw [none]
        exact removes_nil text
      | cons first tail =>
        have unread : labelWord.SilentOver [first] tail :=
          Reader.silentOver_cons.2 ⟨read, Reader.silentOver_nil _ _⟩
        have silent : label.SilentOver [first] tail :=
          Reader.silentOver_cons.2 ⟨label_read_of_labelWord read, Reader.silentOver_nil _ _⟩
        have words : labelWords text (first :: tail) = labelWords text tail :=
          congrArg (List.map _) (Reader.occurrences_append unread)
        rw [words]
        exact (ih tail.length (Nat.lt_succ_self _) ((List.suffix_cons ..).trans suffix) rfl).append
          suffix silent
    | some found =>
      obtain ⟨⟨⟩, rest⟩ := found
      have whole := labelWord_read_eq_some_iff.1 read
      have advances := labelWord.advances read
      rw [labelWords, Reader.occurrences_of_read read]
      subst whole
      exact (ih rest.length advances.length_lt (advances.suffix.trans suffix) rfl).labelWord suffix

/-- Taking labels out by slices, so every slice that it needs can be taken. -/
theorem ofRawBySlices_eq (raw : Text) : ofRawBySlices raw = .ok (ofRaw raw) := by
  have removes := removes_labelWords (List.suffix_refl (joinLines raw))
  have whole := removes.skips _ (List.suffix_refl (joinLines raw))
  rw [Text.offsetOf_self] at whole
  rw [ofRawBySlices]
  dsimp only
  rw [whole]
  rfl

end StatementBody
end TexStatements
