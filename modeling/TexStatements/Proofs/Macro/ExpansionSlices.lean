import TexStatements.Proofs.Macro.Depth
import TexStatements.Proofs.Text.Offset

/-!
# Expansion by slices

Calls are read and replaced here by offset, and every piece of text is a slice: the arguments, what
is looked through for the next backslash, and what is copied between two calls. All these slices can
be taken, and the arguments and the expanded text are those of the readers that go from place to
place (`argumentsAt_offsetOf`, `expandWithinBySlices_eq`).
-/
namespace TexStatements

namespace MacroTable

/-- Read the argument of one parameter from an offset on: the slice between the delimiters of its
group, or the default. -/
def argumentAt (text : Text) : Parameter → Nat → Sliced (Option (Text × Nat))
  | .required, start => text.groupSlice .braces start
  | .optional default, start => do
    let found? ← text.groupSlice .brackets start
    return some (found?.getD (default, start))

/-- Read the arguments of a call from an offset on, in the order of the parameters. -/
def argumentsAt (text : Text) : List Parameter → Nat → Sliced (Option (List Text × Nat))
  | [], start => return some ([], start)
  | parameter :: parameters, start => do
    match ← argumentAt text parameter start with
    | none => return none
    | some (argument, middle) =>
      match ← argumentsAt text parameters middle with
      | none => return none
      | some (arguments, stop) => return some (argument :: arguments, stop)

/-- Read a control sequence at an offset, with its arguments when it is a call. A control word that
goes on behind its name is no call. -/
def itemAt (table : MacroTable) (text : Text) (start : Nat) : Sliced (Option (Item × Nat)) :=
  match text.controlSequenceAt? start with
  | none => return none
  | some (name, stop) =>
    match NameMap.find? table name with
    | none => return some (.kept name, stop)
    | some definition => do
      let behind ← text.sliceFrom stop
      if name.head?.any isControlLetter && !endsControlWord behind then
        return some (.kept name, stop)
      match ← argumentsAt text definition.parameters stop with
      | none => return some (.kept name, stop)
      | some (arguments, stop) => return some (.call ⟨definition, arguments⟩, stop)

variable {table : MacroTable} {text rest : Text}

/-- An argument read by offset is the one that is read from place to place. -/
theorem argumentAt_offsetOf (suffix : rest <:+ text) (parameter : Parameter) :
    argumentAt text parameter (text.offsetOf rest) =
      .ok ((argument? parameter rest).map text.offsetBehind) := by
  cases parameter with
  | required => exact Text.groupSlice_offsetOf suffix .braces
  | optional default =>
    rw [argumentAt, Text.groupSlice_offsetOf suffix, argument?, Group.bracketed?]
    cases Group.group? .brackets rest with
    | none => rfl
    | some found => rfl

/-- Arguments read by offset are those that are read from place to place. -/
theorem argumentsAt_offsetOf (suffix : rest <:+ text) (parameters : List Parameter) :
    argumentsAt text parameters (text.offsetOf rest) =
      .ok ((arguments? parameters rest).map text.offsetBehind) := by
  induction parameters generalizing rest with
  | nil => rfl
  | cons parameter parameters ih =>
    rw [argumentsAt, argumentAt_offsetOf suffix, arguments?]
    cases read : argument? parameter rest with
    | none => rfl
    | some found =>
      obtain ⟨argument, middle⟩ := found
      have later := ih ((argument?_suffix read).trans suffix)
      simp only [Option.map_some, Text.offsetBehind, Sliced.ok_bind, later, Option.bind_eq_bind,
        Option.bind_some]
      cases arguments? parameters middle with
      | none => rfl
      | some found => rfl

/-- No letter continues a control word that is read. -/
theorem complete_of_read? {name after : Text}
    (read : ControlSequence.read? rest = some (name, after)) :
    (name.head?.any isControlLetter && !endsControlWord after) = false := by
  obtain ⟨word | symbol, ends⟩ := ControlSequence.read?_valid read
  · rw [ends word]
    simp
  · obtain ⟨c, other, rfl⟩ := symbol
    simp [other]

/-- An item read by offset is the one that is read at the place. -/
theorem itemAt_offsetOf (table : MacroTable) (suffix : rest <:+ text) :
    itemAt table text (text.offsetOf rest) =
      .ok ((table.item.read rest).map text.offsetBehind) := by
  have start : table.item.read rest =
      (ControlSequence.read? rest).bind fun found => some (itemAfter table found.1 found.2) := rfl
  rw [itemAt, Text.controlSequenceAt?_offsetOf suffix, start]
  cases read : ControlSequence.read? rest with
  | none => rfl
  | some found =>
    obtain ⟨name, after⟩ := found
    have behind : after <:+ text := (ControlSequence.read?_advances read).suffix.trans suffix
    simp only [Option.map_some, Option.bind_some, Text.offsetBehind, itemAfter]
    cases NameMap.find? table name with
    | none => rfl
    | some definition =>
      simp only [Text.sliceFrom_offsetOf behind, Sliced.ok_bind, complete_of_read? read,
        argumentsAt_offsetOf behind, Bool.false_eq_true, if_false]
      cases arguments? definition.parameters after with
      | none => rfl
      | some found => rfl

/-- Reading an item by offset leads on, and not behind the text. -/
theorem itemAt_advances {item : Item} {start stop : Nat}
    (read : itemAt table text start = .ok (some (item, stop))) :
    start < stop ∧ stop ≤ text.byteLength := by
  cases boundary : text.isBoundary start with
  | false =>
    rw [itemAt, Text.controlSequenceAt?, boundary] at read
    cases read
  | true =>
    obtain ⟨rest, suffix, rfl⟩ := Text.exists_place boundary
    rw [itemAt_offsetOf table suffix] at read
    cases found : table.item.read rest with
    | none =>
      rw [found] at read
      cases read
    | some value =>
      rw [found] at read
      cases read
      have advances := table.item.advances found
      have behind := advances.suffix.trans suffix
      exact ⟨(Text.offsetOf_lt_iff suffix behind).2 advances.length_lt, Nat.sub_le ..⟩

/-- Replace the calls of a text from an offset on. What is in front of a call is copied from another
offset on, up to which everything has been copied or replaced already. -/
def replaceBySlices (table : MacroTable) (expandArgument : Text → Sliced Text) (text : Text)
    (start copied : Nat) : Sliced Text := do
  let rest ← text.sliceFrom start
  match rest.firstOffset? '\\' with
  | none => text.sliceFrom copied
  | some offset =>
    match _read : itemAt table text (start + offset) with
    | .error error => .error error
    | .ok none => text.sliceFrom copied
    | .ok (some (.kept _, stop)) => replaceBySlices table expandArgument text stop copied
    | .ok (some (.call found, stop)) =>
      let front ← text.sliceBetween copied (start + offset)
      let arguments ← found.arguments.mapM expandArgument
      let more ← replaceBySlices table expandArgument text stop stop
      return front ++ found.definition.instantiate arguments ++ more
termination_by text.byteLength - start
decreasing_by
  all_goals
    have advances := itemAt_advances _read
    omega

section Replacement

variable {pending : Text} {expandArgument : Text → Sliced Text} {expand : Text → Text}

/-- Where no backslash follows, the rest is copied. -/
theorem replaceBySlices_of_not_mem (suffix : rest <:+ text) (free : '\\' ∉ rest) (copied : Nat) :
    replaceBySlices table expandArgument text (text.offsetOf rest) copied =
      text.sliceFrom copied := by
  rw [replaceBySlices, Text.sliceFrom_offsetOf suffix]
  simp only [Sliced.ok_bind, Text.firstOffset?_of_not_mem free]

/-- Replacing by slices goes on at the next backslash. -/
theorem replaceBySlices_backslash {front tail : Text} (suffix : front ++ '\\' :: tail <:+ text)
    (free : '\\' ∉ front) (copied : Nat) :
    replaceBySlices table expandArgument text (text.offsetOf (front ++ '\\' :: tail)) copied =
      match table.item.read ('\\' :: tail) with
      | none => text.sliceFrom copied
      | some (.kept _, after) =>
        replaceBySlices table expandArgument text (text.offsetOf after) copied
      | some (.call found, after) => do
        let front ← text.sliceBetween copied (text.offsetOf ('\\' :: tail))
        let arguments ← found.arguments.mapM expandArgument
        let more ← replaceBySlices table expandArgument text (text.offsetOf after)
          (text.offsetOf after)
        return front ++ found.definition.instantiate arguments ++ more := by
  have place : '\\' :: tail <:+ front ++ '\\' :: tail := List.suffix_append front _
  have offset := Text.offsetOf_append_add suffix
  have item := itemAt_offsetOf table (place.trans suffix)
  rw [replaceBySlices, Text.sliceFrom_offsetOf suffix]
  simp only [Sliced.ok_bind, Text.firstOffset?_append free, offset]
  split
  all_goals
    rename_i read
    rw [offset, item] at read
  · cases read
  · rw [Option.map_eq_none_iff.1 (Except.ok.inj read)]
  · obtain ⟨⟨value, after⟩, found, same⟩ := Option.map_eq_some_iff.1 (Except.ok.inj read)
    cases same
    rw [found]
  · obtain ⟨⟨value, after⟩, found, same⟩ := Option.map_eq_some_iff.1 (Except.ok.inj read)
    cases same
    rw [found]

/-- Nothing is read where no control sequence starts. -/
theorem item_readsCommands : table.item.ReadsCommands :=
  fun _ _ other => item_unread table fun same => absurd same other

/-- A control sequence that is kept is its backslash and its name. -/
theorem eq_append_of_kept {name after : Text}
    (read : table.item.read rest = some (.kept name, after)) : rest = '\\' :: name ++ after := by
  obtain ⟨spelled, tail, rfl, -, -, item⟩ := item_read_cases read
  obtain ⟨same, rfl⟩ | ⟨definition, arguments, -, -, other⟩ := itemAfter_cases item
  · cases same
    rfl
  · cases other

/-- Expanding every argument by slices is expanding every argument. -/
theorem mapM_eq_ok (expands : ∀ argument, expandArgument argument = .ok (expand argument))
    (arguments : List Text) : arguments.mapM expandArgument = .ok (arguments.map expand) := by
  have same : expandArgument = fun argument => pure (expand argument) := funext expands
  rw [same, List.mapM_pure]
  rfl

/-- Replacing by slices from a place on is replacing what follows, where what is in front of it has
been left to be copied. -/
theorem replaceBySlices_offsetOf (table : MacroTable)
    (expands : ∀ argument, expandArgument argument = .ok (expand argument))
    (suffix : pending <:+ text) (behind : rest <:+ pending) :
    replaceBySlices table expandArgument text (text.offsetOf rest) (text.offsetOf pending) =
      .ok (pending.before rest ++ table.item.replaceAll (Item.replacement expand) rest) := by
  -- On the length of the rest. A control sequence that is kept adds to what is left to be copied,
  -- and behind a call nothing is left.
  induction size : rest.length using Nat.strongRecOn generalizing rest pending with
  | ind length ih =>
    subst size
    have whole := Text.before_append_suffix behind
    by_cases mem : '\\' ∈ rest
    · obtain ⟨front, tail, rfl, free⟩ := List.eq_append_cons_of_mem mem
      have place : '\\' :: tail <:+ front ++ '\\' :: tail := List.suffix_append front _
      have passed : table.item.SilentOver front ('\\' :: tail) :=
        item_readsCommands.silentOver _ free
      have ahead : pending.before ('\\' :: tail) =
          pending.before (front ++ '\\' :: tail) ++ front := Text.before_append_front behind
      rw [replaceBySlices_backslash (behind.trans suffix) free, Reader.replaceAll_append _ passed]
      cases read : table.item.read ('\\' :: tail) with
      | none =>
        -- Only a backslash at the end of the text starts no control sequence.
        have lone : tail = [] := plain_of_item_unread read rfl
        subst lone
        rw [Reader.replaceAll_of_unread _ read, Reader.replaceAll, whole]
        exact Text.sliceFrom_offsetOf suffix
      | some found =>
        obtain ⟨value, after⟩ := found
        have advances := table.item.advances read
        have later : after <:+ pending := advances.suffix.trans (place.trans behind)
        have shorter : after.length < (front ++ '\\' :: tail).length := by
          have := advances.length_lt
          rw [List.length_append]
          omega
        rw [Reader.replaceAll_of_read _ read]
        cases value with
        | kept name =>
          have between : '\\' :: tail = '\\' :: name ++ after := eq_append_of_kept read
          have copied : pending.before after = pending.before ('\\' :: tail) ++ '\\' :: name := by
            rw [between]
            exact Text.before_append_front (between ▸ place.trans behind)
          have kept := ih after.length shorter suffix later rfl
          simp only [kept, copied, ahead, Item.replacement, List.append_assoc]
        | call found =>
          have slice := Text.sliceBetween_offsetOf suffix (place.trans behind)
          have more := ih after.length shorter (later.trans suffix) (List.suffix_refl after) rfl
          simp only [slice, mapM_eq_ok expands, more, Text.before_self, Sliced.ok_bind, ahead,
            Item.replacement, List.nil_append, List.append_assoc]
          rfl
    · have silent : table.item.SilentOver rest [] := item_readsCommands.silentOver [] mem
      rw [replaceBySlices_of_not_mem (behind.trans suffix) mem, Text.sliceFrom_offsetOf suffix,
        Reader.replaceAll_of_silent _ silent, whole]

end Replacement

/-- Expand the calls of a text, going at most the given number of levels into arguments. -/
def expandWithinBySlices (table : MacroTable) : Nat → Text → Sliced Text
  | 0 => fun text => return text
  | depth + 1 => fun text => replaceBySlices table (expandWithinBySlices table depth) text 0 0

/-- Expanding by slices to any depth is expanding to it, so every slice that expansion needs can be
taken. -/
theorem expandWithinBySlices_eq (table : MacroTable) (depth : Nat) (text : Text) :
    expandWithinBySlices table depth text = .ok (expandWithin table depth text) := by
  induction depth generalizing text with
  | zero => rfl
  | succ depth ih =>
    have whole := replaceBySlices_offsetOf table ih (List.suffix_refl text) (List.suffix_refl text)
    rwa [Text.offsetOf_self, Text.before_self, List.nil_append] at whole

end MacroTable
end TexStatements
