import TexStatements.Proofs.Group.Cursor
import TexStatements.Proofs.Macro.CollectionSlices
import TexStatements.Proofs.Macro.ExpansionSlices
import TexStatements.Proofs.Statement.LabelSlices

/-!
# Offsets for slices

Asked by an offset between characters, the readers of groups, blanks and control sequences answer
with offsets between characters, behind the one that they are asked by and not behind the text. So
no slice that macros, their arguments and labels are read and taken out by splits a character or is
out of range.
-/
namespace TexStatements
namespace Text

open TexStatements.Group Utf8

variable {text : Text} {start index : Nat} {delimiters : Delimiters}

/-- The offset of a closing delimiter can be used for slices. -/
theorem isSlicePosition_of_closingAt? (boundary : text.isBoundary start = true)
    (found : text.closingAt? delimiters start = some index) :
    text.IsSlicePosition start index := by
  obtain ⟨place, suffix, rfl⟩ := exists_place boundary
  rw [closingAt?, fromByte_offsetOf suffix] at found
  obtain ⟨⟨inner, rest⟩, closed, rfl⟩ := Option.map_eq_some_iff.1 found
  have whole := Delimiters.close?_eq_append closed
  exact isSlicePosition_offsetOf suffix (whole ▸ List.suffix_append inner _)

/-- The offset of a group that is never closed can be used for slices. -/
theorem isSlicePosition_of_unterminated {reading : Reading} {place : Text} {opening : Nat}
    (suffix : place <:+ text)
    (read : spanOf text place.trimStart reading = .unterminated opening) :
    text.IsSlicePosition (text.offsetOf place) opening := by
  cases reading with
  | absent => cases read
  | unterminated =>
    cases read
    exact isSlicePosition_offsetOf suffix (trimStart_suffix place)
  | closed inner rest => cases read

/-- A whole group fits, and the cursor behind its opening delimiter stops at its closing one. -/
theorem closed_of_groupAt {span : GroupSpan} (boundary : text.isBoundary start = true)
    (read : text.groupAt delimiters start = .closed span) :
    span.Fits text start ∧
      closing? delimiters (encode text) (span.opening + 1) = some span.closing := by
  obtain ⟨place, suffix, rfl⟩ := exists_place boundary
  rw [groupAt_offsetOf suffix] at read
  cases found : readGroup delimiters place with
  | absent => rw [found] at read; cases read
  | unterminated => rw [found] at read; cases read
  | closed inner after =>
    rw [found] at read
    cases read
    have fits := fits_of_readGroup suffix found
    refine ⟨fits, ?_⟩
    rw [closing?_encode delimiters (boundaries_of_sliceBetween fits.inner).1]
    obtain ⟨whole, inside⟩ := group?_eq_some_iff.1 (congrArg Reading.toOption found)
    have opens := (trimStart_suffix place).trans suffix
    rw [whole] at opens
    have opened : text.offsetOf (inner ++ delimiters.closing :: after) =
        text.offsetOf (trimStart place) + 1 := by
      rw [whole, offsetOf_tail opens]
      cases delimiters <;> rfl
    have behind := (List.suffix_cons _ _).trans opens
    rw [← opened, closingAt?, fromByte_offsetOf behind, close?_eq_some_iff.2 ⟨rfl, inside⟩,
      offsetOf_append_add behind]
    rfl

/-- From an offset on, every offset that is answered can be used for slices, and every slice that
is taken by these offsets is in range, splits no character and is what the readers of characters
make. -/
structure SlicesInRange (text : Text) (start : Nat) : Prop where
  /-- The cursor that closes a group by bytes stops where the reader of characters stops. -/
  cursor : ∀ delimiters,
    closing? delimiters (encode text) start = text.closingAt? delimiters start
  /-- The offset of a closing delimiter can be used. -/
  closing : ∀ delimiters index, text.closingAt? delimiters start = some index →
    text.IsSlicePosition start index
  /-- The offset behind blanks can be used. -/
  blanks : text.IsSlicePosition start (text.afterBlanks start)
  /-- The offset behind a control sequence can be used, and the name is the slice in front of it. -/
  sequence : ∀ name stop, text.controlSequenceAt? start = some (name, stop) →
    text.IsSlicePosition start stop ∧ start < stop ∧ text.sliceBetween (start + 1) stop = .ok name
  /-- The offsets of a whole group can be used, and the cursor stops at its closing delimiter. -/
  group : ∀ delimiters span, text.groupAt delimiters start = .closed span →
    span.Fits text start ∧
      closing? delimiters (encode text) (span.opening + 1) = some span.closing
  /-- The offset of a group that is never closed can be used. -/
  unterminated : ∀ delimiters opening, text.groupAt delimiters start = .unterminated opening →
    text.IsSlicePosition start opening
  /-- The arguments of a call are slices. -/
  arguments : ∀ parameters, MacroTable.argumentsAt text parameters start =
    .ok ((MacroTable.arguments? parameters (text.fromByte start)).map text.offsetBehind)
  /-- The calls of the text are expanded by slices, to any depth. -/
  expansion : ∀ (table : MacroTable) depth,
    table.expandWithinBySlices depth text = .ok (table.expandWithin depth text)
  /-- The definitions of the text are collected by slices. -/
  collection : ∀ (table : MacroTable) family,
    table.collectBySlices family text = .ok (table.collect family text)
  /-- The labels of the text are taken out by slices. -/
  labels : StatementBody.ofRawBySlices text = .ok (StatementBody.ofRaw text)

/-- From an offset between characters on, all slices are in range. -/
theorem slices_in_range (text : Text) (start : Nat) (boundary : text.isBoundary start = true) :
    SlicesInRange text start := by
  obtain ⟨place, suffix, rfl⟩ := exists_place boundary
  constructor
  case cursor => exact fun delimiters => closing?_encode delimiters boundary
  case closing => exact fun delimiters index => isSlicePosition_of_closingAt? boundary
  case blanks =>
    rw [afterBlanks_offsetOf suffix]
    exact isSlicePosition_offsetOf suffix (trimStart_suffix place)
  case sequence =>
    intro name stop found
    rw [controlSequenceAt?_offsetOf suffix] at found
    obtain ⟨⟨spelled, after⟩, read, same⟩ := Option.map_eq_some_iff.1 found
    cases same
    have advances := ControlSequence.read?_advances read
    exact ⟨isSlicePosition_offsetOf suffix advances.suffix,
      (offsetOf_lt_iff suffix (advances.suffix.trans suffix)).2 advances.length_lt,
      sliceBetween_of_read? suffix read⟩
  case group => exact fun delimiters span => closed_of_groupAt boundary
  case unterminated =>
    intro delimiters opening read
    rw [groupAt_offsetOf suffix] at read
    exact isSlicePosition_of_unterminated suffix read
  case arguments =>
    intro parameters
    rw [fromByte_offsetOf suffix]
    exact MacroTable.argumentsAt_offsetOf suffix parameters
  case expansion => exact fun table depth => MacroTable.expandWithinBySlices_eq table depth text
  case collection => exact fun table family => MacroTable.collectBySlices_eq table family text
  case labels => exact StatementBody.ofRawBySlices_eq text

/-- A group with a backslash in front of a character of two bytes, of which the cursor sees only the
second one. -/
theorem slices_in_range_escaped_character :
    let text : Text := "é\x7bü\\ß[\x7b]\x7d]\x7d \\label\x7bö\x7d".toList
    text.isBoundary 3 = true ∧ text.isBoundary 7 = false ∧
    closing? .braces (encode text) 3 = some 13 ∧ text.IsSlicePosition 3 13 ∧
    StatementBody.ofRawBySlices text =
      .ok ⟨"é\x7bü\\ß[\x7b]\x7d]\x7d".toList, some "ö".toList⟩ := by
  intro text
  have boundary : text.isBoundary 3 = true := by decide +kernel
  have closing : text.closingAt? .braces 3 = some 13 := by decide +kernel
  have body : StatementBody.ofRaw text =
      ⟨"é\x7bü\\ß[\x7b]\x7d]\x7d".toList, some "ö".toList⟩ := by decide +kernel
  have inRange := slices_in_range text 3 boundary
  exact ⟨boundary, by decide +kernel, (inRange.cursor .braces).trans closing,
    inRange.closing .braces 13 closing, inRange.labels.trans (congrArg Except.ok body)⟩

end Text
end TexStatements
