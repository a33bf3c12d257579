import TexStatements.Group.Flat
import TexStatements.Proofs.Text.Search

/-!
# Texts of commands

A text of commands is a row of control words, each with what follows it up to the next backslash.
A reader that is guarded by a set of control words passes over all others, so that what it does to
a text of commands is settled command by command.
-/
namespace TexStatements

/-- A control word with the text behind it, up to the next backslash. -/
structure CommandText where
  /-- The control word, without its backslash. -/
  word : Text
  /-- The text behind it. -/
  after : Text
deriving DecidableEq

namespace CommandText

/-- The source of a command. -/
def text (command : CommandText) : Text := '\\' :: (command.word ++ command.after)

/-- A command that is read as it is written: its word is of letters, which no letter follows, and
the text behind it has no backslash. -/
structure Proper (command : CommandText) : Prop where
  /-- The word is of letters. -/
  letters : ∀ letter ∈ command.word, isControlLetter letter = true
  /-- No letter follows the word. -/
  ends : ∀ first ∈ command.after.head?, isControlLetter first = false
  /-- No other command follows in the same text. -/
  single : '\\' ∉ command.after

/-- The source of commands in a row. -/
def row (commands : List CommandText) : Text := commands.flatMap text

/-- No commands have no source. -/
@[simp] theorem row_nil : row [] = [] := rfl

/-- The source of the first command stands in front of the others. -/
@[simp] theorem row_cons (command : CommandText) (more : List CommandText) :
    row (command :: more) = command.text ++ row more := rfl

/-- The source of two rows is one after the other. -/
@[simp] theorem row_append (front more : List CommandText) :
    row (front ++ more) = row front ++ row more := List.flatMap_append

/-- The source of a command starts a command. -/
theorem atCommand_text (command : CommandText) (rest : Text) :
    (command.text ++ rest).AtCommand := Text.atCommand_backslash _

/-- A row of commands starts a command, unless it is empty. -/
theorem atCommand_row (commands : List CommandText) {rest : Text} (starts : rest.AtCommand) :
    (row commands ++ rest).AtCommand := by
  cases commands with
  | nil => exact starts
  | cons command more =>
    rw [row_cons, List.append_assoc]
    exact command.atCommand_text _

/-- A control word is read from a command that is written properly. -/
theorem Proper.controlWord_read {command : CommandText} (proper : command.Proper)
    (accepts : Text → Bool) {rest : Text} (starts : rest.AtCommand) :
    (controlWord accepts).read (command.text ++ rest) =
      if accepts command.word then some (command.word, command.after ++ rest) else none := by
  have stops : ∀ first ∈ (command.after ++ rest).head?, isControlLetter first = false := by
    intro first isFirst
    cases behind : command.after with
    | nil =>
      rw [behind, List.nil_append] at isFirst
      rw [starts first isFirst]
      decide
    | cons next more =>
      refine proper.ends first ?_
      rw [behind] at isFirst ⊢
      exact isFirst
  have read := Reader.controlWord_read accepts proper.letters stops
  rwa [← List.append_assoc] at read

end CommandText

namespace Reader

open CommandText

variable {α β : Type}

/-- A reader that fails wherever no control word of a set is read. -/
def Guarded (reader : Reader α) (accepts : Text → Bool) : Prop :=
  ∀ text, (controlWord accepts).read text = none → reader.read text = none

/-- Control words are guarded by themselves. -/
theorem guarded_controlWord (accepts : Text → Bool) : (controlWord accepts).Guarded accepts :=
  fun _ unread => unread

/-- Keywords are guarded by their control words. -/
theorem guarded_keyword (accepts : Text → Bool) : (keyword accepts).Guarded accepts := by
  intro text unread
  simp [keyword, unread]

/-- Admitting only some of the things read keeps the guard. -/
theorem Guarded.filterMap {reader : Reader α} {accepts : Text → Bool}
    (guarded : reader.Guarded accepts) (accept : α → Option β) :
    (reader.filterMap accept).Guarded accepts := by
  intro text unread
  simp [Reader.filterMap, guarded text unread]

/-- Reading a flat group further keeps the guard of a reader. -/
theorem Guarded.thenFlatGroup {reader : Reader α} {accepts : Text → Bool}
    (guarded : reader.Guarded accepts) (accept : α → Text → Option β) :
    (reader.thenFlatGroup accept).Guarded accepts := by
  intro text unread
  simp [Reader.thenFlatGroup, Reader.andThen, guarded text unread]

/-- A guarded reader succeeds at a backslash only. -/
theorem Guarded.readsCommands {reader : Reader α} {accepts : Text → Bool}
    (guarded : reader.Guarded accepts) : reader.ReadsCommands :=
  fun first tail other => guarded _ (controlWord_readsCommands accepts first tail other)

/-- A command that a reader does not read is passed over. -/
theorem ReadsCommands.silentOver_text {reader : Reader α} (commands : reader.ReadsCommands)
    {command : CommandText} (proper : command.Proper) {rest : Text}
    (unread : reader.read (command.text ++ rest) = none) :
    reader.SilentOver command.text rest := by
  have free : '\\' ∉ command.word ++ command.after := by
    rw [List.mem_append, not_or]
    refine ⟨fun inWord => ?_, proper.single⟩
    exact absurd (proper.letters _ inWord) (by decide)
  exact commands.silentOver_command free unread

/-- Commands that a reader does not read are passed over. -/
theorem ReadsCommands.silentOver_row {reader : Reader α} (readsCommands : reader.ReadsCommands)
    {commands : List CommandText} (proper : ∀ command ∈ commands, command.Proper) {rest : Text}
    (starts : rest.AtCommand)
    (unread : ∀ command ∈ commands, ∀ rest, rest.AtCommand →
      reader.read (command.text ++ rest) = none) : reader.SilentOver (row commands) rest := by
  induction commands with
  | nil => exact silentOver_nil reader rest
  | cons command more ih =>
    have later := ih (fun other mem => proper other (List.mem_cons_of_mem _ mem))
      (fun other mem => unread other (List.mem_cons_of_mem _ mem))
    have first := readsCommands.silentOver_text (proper command (List.mem_cons_self ..))
      (unread command (List.mem_cons_self ..) _ (atCommand_row more starts))
    exact first.append later

/-- Commands with other control words are passed over. -/
theorem Guarded.silentOver_row {reader : Reader α} {accepts : Text → Bool}
    (guarded : reader.Guarded accepts) {commands : List CommandText}
    (proper : ∀ command ∈ commands, command.Proper) {rest : Text} (starts : rest.AtCommand)
    (others : ∀ command ∈ commands, accepts command.word = false) :
    reader.SilentOver (row commands) rest := by
  refine guarded.readsCommands.silentOver_row proper starts fun command mem rest starts => ?_
  apply guarded
  rw [(proper command mem).controlWord_read accepts starts, others command mem]
  rfl

/-- A command that is read is found first, and nothing more of it. -/
theorem ReadsCommands.occurrences_text {reader : Reader α} (readsCommands : reader.ReadsCommands)
    {command : CommandText} {tail rest : Text} {value : α} (single : '\\' ∉ tail)
    (read : reader.read (command.text ++ rest) = some (value, tail ++ rest)) :
    reader.occurrences (command.text ++ rest) =
      ⟨command.text ++ rest, value, tail ++ rest⟩ :: reader.occurrences rest := by
  rw [occurrences_of_read read, occurrences_append (readsCommands.silentOver rest single)]

/-- A row of commands is kept if each of them is not read or is replaced by itself. -/
theorem ReadsCommands.replaceAll_row {reader : Reader α} (readsCommands : reader.ReadsCommands)
    (replacement : α → Text) {commands : List CommandText}
    (proper : ∀ command ∈ commands, command.Proper)
    (kept : ∀ command ∈ commands, ∀ rest, rest.AtCommand →
      reader.read (command.text ++ rest) = none ∨
      ∃ value tail, reader.read (command.text ++ rest) = some (value, tail ++ rest) ∧
        '\\' ∉ tail ∧ replacement value ++ tail = command.text) :
    reader.replaceAll replacement (row commands) = row commands := by
  induction commands with
  | nil => rw [row_nil, replaceAll]
  | cons command more ih =>
    have later := ih (fun other mem => proper other (List.mem_cons_of_mem _ mem))
      (fun other mem => kept other (List.mem_cons_of_mem _ mem))
    have starts : (row more).AtCommand := by
      simpa using atCommand_row more Text.atCommand_nil
    rw [row_cons]
    rcases kept command (List.mem_cons_self ..) _ starts with
      unread | ⟨value, tail, read, single, same⟩
    · have passed := readsCommands.silentOver_text (proper command (List.mem_cons_self ..)) unread
      rw [replaceAll_append replacement passed, later]
    · rw [replaceAll_of_read replacement read,
        replaceAll_append replacement (readsCommands.silentOver _ single), later,
        ← List.append_assoc, same]

/-- A text is kept if what is read is always replaced by itself. -/
theorem replaceAll_eq_self {reader : Reader α} {replacement : α → Text}
    (same : ∀ text value rest, reader.read text = some (value, rest) →
      replacement value ++ rest = text) (text : Text) :
    reader.replaceAll replacement text = text := by
  induction size : text.length using Nat.strongRecOn generalizing text with
  | ind length ih =>
    subst size
    cases read : reader.read text with
    | some found =>
      obtain ⟨value, rest⟩ := found
      rw [replaceAll_of_read replacement read,
        ih rest.length (reader.advances read).length_lt rest rfl, same text value rest read]
    | none =>
      cases text with
      | nil => rw [replaceAll]
      | cons first tail =>
        have passed : reader.SilentOver [first] tail :=
          silentOver_cons.2 ⟨read, silentOver_nil reader tail⟩
        have whole := replaceAll_append replacement passed
        rw [ih tail.length (Nat.lt_succ_self _) tail rfl] at whole
        exact whole

end Reader
end TexStatements
