import TexStatements.Proofs.Paper.Layout

/-!
# Headings of a paper

The sectioning commands of a paper are found in its source at the byte offsets of their lines, and
its appendix is found where the line stands that starts it. No other command of the source is taken
for one of these.
-/
namespace TexStatements
namespace Paper

open Environment (End)

section Silence

variable {α : Type} {paper : Paper} {reader : Reader α} {accepts : Text → Bool} {rest : Text}

/-- A reader that is guarded by other words than that of declarations passes over them. -/
theorem WellFormed.silentOver_kindRow (wellFormed : paper.WellFormed)
    (guarded : reader.Guarded accepts) (other : accepts "newtheorem".toList = false)
    (starts : rest.AtCommand) : reader.SilentOver paper.kindRow rest := by
  apply guarded.silentOver_row _ starts
  · intro command mem
    obtain ⟨kind, -, rfl⟩ := List.mem_map.1 mem
    exact other
  · intro command mem
    obtain ⟨kind, declared, rfl⟩ := List.mem_map.1 mem
    exact (wellFormed.simple_kind declared).proper

/-- A reader that is guarded by another word than that of a tag passes over the tag of the
document. -/
theorem silentOver_documentEnd (guarded : reader.Guarded accepts) {part : End}
    (other : accepts part.word = false) (starts : rest.AtCommand) :
    reader.SilentOver (documentEnd part).text rest := by
  have letters : ∀ letter ∈ part.word, letter.isAlpha = true := by cases part <;> decide
  have simple : Simple (documentEnd part) :=
    simple_of_group letters (by decide) isMarked_lineFeed
  have row : reader.SilentOver (CommandText.row [documentEnd part]) rest := by
    apply guarded.silentOver_row _ starts
    · intro command mem
      rw [List.mem_singleton.1 mem]
      exact other
    · intro command mem
      rw [List.mem_singleton.1 mem]
      exact simple.proper
  rwa [CommandText.row_cons, CommandText.row_nil, List.append_nil] at row

/-- A reader that is guarded by other words than those of items passes over items. -/
theorem silentOver_items {names : List Text} (words : ∀ name ∈ names, IsWord name)
    {items : List Item} (admitted : ∀ item ∈ items, item.WellFormed names)
    (guarded : reader.Guarded accepts) (others : ∀ word ∈ itemWords, accepts word = false)
    (starts : rest.AtCommand) : reader.SilentOver (rowOf (items.map Entry.item)) rest := by
  apply guarded.silentOver_row _ starts
  · intro command mem
    obtain ⟨entry, inItems, inEntry⟩ := List.mem_flatMap.1 mem
    obtain ⟨item, -, rfl⟩ := List.mem_map.1 inItems
    exact others _ (item.word_mem_itemWords command inEntry)
  · intro command mem
    obtain ⟨entry, inItems, inEntry⟩ := List.mem_flatMap.1 mem
    obtain ⟨item, isItem, rfl⟩ := List.mem_map.1 inItems
    have line : (Entry.item item).WellFormed names := admitted item isItem
    exact (Entry.simple words line command inEntry).proper

end Silence

section Markers

variable {paper : Paper}

/-- The reader of headings is guarded by the words of levels. -/
theorem guarded_head : SectionMarker.head.Guarded fun word =>
    (SectionLevel.ofCommand? word).isSome := by
  intro text unread
  simp only [SectionMarker.head, Reader.andThen, Reader.filterMap, unread, Option.bind_eq_bind,
    Option.bind_none]

/-- A level is read from its command. -/
theorem ofCommand?_counter (level : SectionLevel) :
    SectionLevel.ofCommand? level.counter = some level := by
  cases level <;> decide

/-- The star and the opening brace of a heading are read behind its word. -/
theorem headAfter?_brace (level : SectionLevel) (starred : Bool) (tail : Text) :
    SectionMarker.headAfter? level ((if starred then ['*'] else []) ++ '{' :: tail) =
      some ((level, starred), tail) := by
  cases starred <;> rfl

/-- A heading is read as it is written. -/
theorem read_heading {names : List Text} {level : SectionLevel} {starred : Bool} {title : Text}
    (words : ∀ name ∈ names, IsWord name)
    (admitted : (Entry.item (.heading level starred title)).WellFormed names) {rest : Text}
    (starts : rest.AtCommand) :
    SectionMarker.head.read ((Entry.item (.heading level starred title)).text ++ rest) =
      some ((level, starred), (title ++ ['}', '\n']) ++ rest) := by
  have simple := Entry.simple words admitted _ (List.mem_singleton_self _)
  have word := simple.proper.controlWord_read
    (fun word => (SectionLevel.ofCommand? word).isSome) starts
  have head := headAfter?_brace level starred (title ++ ['}', '\n'] ++ rest)
  have isLevel := ofCommand?_counter level
  rw [Entry.text, Entry.commands, Item.commands, CommandText.row_cons, CommandText.row_nil,
    List.append_nil]
  simp only [isLevel, Option.isSome_some, if_true] at word
  simp only [SectionMarker.head, Reader.andThen, Reader.filterMap, word, Option.bind_eq_bind,
    Option.bind_some, isLevel]
  rw [← head]
  simp [group]

/-- A line without a heading has none. -/
theorem head_silentOver_text {names : List Text} {entry : Entry}
    (words : ∀ name ∈ names, IsWord name) (admitted : entry.WellFormed names)
    (other : ∀ level starred title, entry ≠ .item (.heading level starred title)) {rest : Text}
    (starts : rest.AtCommand) : SectionMarker.head.SilentOver entry.text rest := by
  apply guarded_head.silentOver_row _ starts
  · intro command mem
    cases entry with
    | appendix =>
      obtain rfl := List.mem_singleton.1 mem
      show (SectionLevel.ofCommand? "appendix".toList).isSome = false
      decide
    | item content =>
      cases content with
      | heading level starred title => exact absurd rfl (other level starred title)
      | statement kind label? body =>
        have unlike : ∀ word ∈ statementWords, (SectionLevel.ofCommand? word).isSome = false := by
          decide
        exact unlike _ (word_mem_statementWords kind label? body command mem)
  · exact fun command mem => (Entry.simple words admitted command mem).proper

/-- A heading is found where its line starts, and nothing else is found in the line. -/
theorem occurrences_heading {names : List Text} {level : SectionLevel} {starred : Bool}
    {title : Text} (words : ∀ name ∈ names, IsWord name)
    (admitted : (Entry.item (.heading level starred title)).WellFormed names) {rest : Text}
    (starts : rest.AtCommand) :
    let line := (Entry.item (.heading level starred title)).text ++ rest
    SectionMarker.head.occurrences line =
      ⟨line, (level, starred), (title ++ ['}', '\n']) ++ rest⟩ ::
        SectionMarker.head.occurrences rest := by
  have single : '\\' ∉ title ++ ['}', '\n'] := by
    intro mem
    rcases List.mem_append.1 mem with inTitle | inEnd
    · exact absurd (admitted _ inTitle) (by decide)
    · exact absurd inEnd (by decide)
  have passed := guarded_head.readsCommands.silentOver rest single
  dsimp only
  rw [Reader.occurrences_of_read (read_heading words admitted starts),
    Reader.occurrences_append passed]

/-- The marker of a heading that is found in a text of a number of bytes. -/
def markerAt (bytes : Nat) (found : Found (SectionLevel × Bool)) : SectionMarker where
  level := found.value.1
  offset := Text.offsetIn bytes found.place
  starred := found.value.2

/-- The headings of lines are found at their offsets. -/
theorem map_markerAt {names : List Text} (words : ∀ name ∈ names, IsWord name) {bytes start : Nat}
    {entries : List Entry} (admitted : ∀ entry ∈ entries, entry.WellFormed names)
    (size : bytes = start + (rowOf entries ++ (documentEnd .closing).text).byteLength) :
    (SectionMarker.head.occurrences (rowOf entries ++ (documentEnd .closing).text)).map
      (markerAt bytes) = (placedFrom start entries).filterMap marker? := by
  induction entries generalizing start with
  | nil =>
    have silent : SectionMarker.head.SilentOver (documentEnd .closing).text [] :=
      silentOver_documentEnd guarded_head (by decide) Text.atCommand_nil
    rw [rowOf_nil, List.nil_append, Reader.occurrences_of_silent silent]
    rfl
  | cons entry more ih =>
    rw [List.forall_mem_cons] at admitted
    have starts : (rowOf more ++ (documentEnd .closing).text).AtCommand :=
      CommandText.atCommand_row _ (Text.atCommand_backslash _)
    rw [rowOf_cons, List.append_assoc, Text.byteLength_append] at size
    rw [rowOf_cons, List.append_assoc]
    have behind : bytes = start + entry.text.byteLength +
        (rowOf more ++ (documentEnd .closing).text).byteLength := by
      omega
    have later := ih admitted.2 behind
    cases entry with
    | appendix =>
      have silent := head_silentOver_text words admitted.1 (by rintro _ _ _ ⟨⟩) starts
      rw [Reader.occurrences_append silent, later]
      rfl
    | item content =>
      cases content with
      | statement kind label? body =>
        have silent := head_silentOver_text words admitted.1 (by rintro _ _ _ ⟨⟩) starts
        rw [Reader.occurrences_append silent, later]
        rfl
      | heading level starred title =>
        have offset : Text.offsetIn bytes ((Entry.item (.heading level starred title)).text ++
            (rowOf more ++ (documentEnd .closing).text)) = start := by
          rw [Text.offsetIn, Text.byteLength_append]
          omega
        rw [occurrences_heading words admitted.1 starts, List.map_cons, later, markerAt, offset]
        rfl

end Markers

section Source

variable {paper : Paper}

/-- The source of a paper up to its first line. -/
def opening (paper : Paper) : Text := paper.kindRow ++ (documentEnd .opening).text

/-- The source of a paper is its opening, its lines and the tag that closes the document. -/
theorem render_eq_lines (paper : Paper) :
    paper.render = paper.opening ++ (rowOf paper.entries ++ (documentEnd .closing).text) := by
  rw [render_eq_row, commands, body, opening, kindRow]
  simp only [CommandText.row_append, CommandText.row_cons, CommandText.row_nil, List.append_nil,
    List.append_assoc, rowOf]

/-- The document starts at its opening tag. -/
theorem WellFormed.suffixAt?_render (wellFormed : paper.WellFormed) :
    Text.suffixAt? SectionMarker.documentTag paper.render =
      some ((documentEnd .opening).text ++
        (rowOf paper.entries ++ (documentEnd .closing).text)) := by
  let rest := rowOf paper.entries ++ (documentEnd .closing).text
  have tag : (documentEnd .opening).text ++ rest =
      End.opening.tag "document".toList ++ ('\n' :: rest) := by
    rw [text_documentEnd, List.append_assoc]
    rfl
  have silent : (Environment.tagReader .opening "document".toList).SilentOver paper.kindRow
      ((documentEnd .opening).text ++ rest) :=
    wellFormed.silentOver_kindRow (guarded_tagReader .opening _) (by decide)
      (Text.atCommand_backslash _)
  have found := Reader.find?_append silent
  rw [tag, Reader.find?_of_read (Environment.tagReader_read .opening "document".toList _)] at found
  rw [render_eq_lines, opening, List.append_assoc, Text.suffixAt?, SectionMarker.documentTag,
    Environment.beginTag, EnvironmentScan.cut?_tag]
  change (Option.map _ (Option.map _
    ((Environment.tagReader .opening "document".toList).find?
      (paper.kindRow ++ ((documentEnd .opening).text ++ rest))))) = _
  rw [tag, found]
  simp only [Option.map_some, ← tag]

/-- The headings of a paper are found at the offsets of their lines. -/
theorem WellFormed.markers_render (wellFormed : paper.WellFormed) :
    SectionMarker.ofText paper.render =
      (placedFrom paper.opening.byteLength paper.entries).filterMap marker? := by
  have starts : (rowOf paper.entries ++ (documentEnd .closing).text).AtCommand :=
    CommandText.atCommand_row _ (Text.atCommand_backslash _)
  have size : paper.render.byteLength = paper.opening.byteLength +
      (rowOf paper.entries ++ (documentEnd .closing).text).byteLength := by
    rw [render_eq_lines, Text.byteLength_append]
  have headings := map_markerAt wellFormed.isWord wellFormed.entries size
  have silent : SectionMarker.head.SilentOver (documentEnd .opening).text
      (rowOf paper.entries ++ (documentEnd .closing).text) :=
    silentOver_documentEnd guarded_head (by decide) starts
  rw [SectionMarker.ofText, wellFormed.suffixAt?_render, Option.getD_some,
    Reader.occurrences_append silent, ← headings]
  rfl

/-- No environment starts the appendix. -/
theorem WellFormed.find?_appendixTag (wellFormed : paper.WellFormed) :
    (Environment.tagReader .opening "appendix".toList).find? paper.render = none := by
  have silent : (Environment.tagReader .opening "appendix".toList).SilentOver paper.render [] := by
    rw [render_eq_row]
    apply (guarded_tagReader .opening _).readsCommands.silentOver_row
    · exact fun command mem => (wellFormed.simple command mem).proper
    · exact Text.atCommand_nil
    intro command mem rest starts
    by_cases isTag : command.word = End.opening.word
    · obtain ⟨name, known, after, named⟩ := wellFormed.exists_name mem isTag
      obtain ⟨word, -, different⟩ := wellFormed.environment name known
      cases read : (Environment.tagReader .opening "appendix".toList).read
          (command.text ++ rest) with
      | none => rfl
      | some found =>
        have whole := Environment.tagReader_read_eq_some read
        rw [text_eq_tag isTag named, List.append_assoc] at whole
        have spellable := spellable_of_isWord word
        exact absurd (End.tag_append_inj spellable (by decide) whole).2.1 different
    · have word := (wellFormed.simple command mem).proper.controlWord_read
        (fun word => word == End.opening.word) starts
      apply guarded_tagReader
      rw [word, beq_eq_false_iff_ne.2 isTag]
      rfl
  exact Reader.find?_of_silent silent

/-- The text before the appendix. -/
def front (paper : Paper) : Text := paper.opening ++ rowOf (paper.main.map Entry.item)

/-- No command before the appendix starts it. -/
theorem WellFormed.appendixCommand_silentOver_front (wellFormed : paper.WellFormed) {rest : Text}
    (starts : rest.AtCommand) : appendixCommand.SilentOver paper.front rest := by
  have guarded : appendixCommand.Guarded (· == "appendix".toList) := Reader.guarded_controlWord _
  have items : appendixCommand.SilentOver (rowOf (paper.main.map Entry.item)) rest := by
    apply silentOver_items wellFormed.isWord _ guarded (by decide) starts
    exact fun item mem => wellFormed.items item (List.mem_append_left _ mem)
  have later : (rowOf (paper.main.map Entry.item) ++ rest).AtCommand :=
    CommandText.atCommand_row _ starts
  have tag : appendixCommand.SilentOver (documentEnd .opening).text
      (rowOf (paper.main.map Entry.item) ++ rest) :=
    silentOver_documentEnd guarded (by decide) later
  have kinds : appendixCommand.SilentOver paper.kindRow
      ((documentEnd .opening).text ++ (rowOf (paper.main.map Entry.item) ++ rest)) :=
    wellFormed.silentOver_kindRow guarded (by decide) (CommandText.atCommand_text _ _)
  have opening : appendixCommand.SilentOver paper.opening
      (rowOf (paper.main.map Entry.item) ++ rest) := kinds.append tag
  exact opening.append items

/-- The appendix starts at its command. -/
theorem WellFormed.appendixCut?_render (wellFormed : paper.WellFormed) :
    appendixCut? paper.render = paper.appendix?.map fun _ => paper.front.byteLength := by
  have whole : paper.render =
      paper.front ++ (rowOf paper.appendixEntries ++ (documentEnd .closing).text) := by
    rw [render_eq_lines, Paper.entries, rowOf_append, front, List.append_assoc, List.append_assoc]
  rw [Outline.appendixCut?_eq, wellFormed.find?_appendixTag, Option.map_none, Option.none_or,
    whole]
  have guarded : appendixCommand.Guarded (· == "appendix".toList) := Reader.guarded_controlWord _
  unfold appendixEntries
  cases paper.appendix? with
  | none =>
    have starts : ((documentEnd .closing).text ++ []).AtCommand := CommandText.atCommand_text _ _
    have last : appendixCommand.SilentOver (documentEnd .closing).text [] :=
      silentOver_documentEnd guarded (by decide) Text.atCommand_nil
    have silent := (wellFormed.appendixCommand_silentOver_front starts).append last
    rw [rowOf_nil, List.nil_append, Reader.find?_of_silent silent]
    rfl
  | some items =>
    let rest := rowOf (items.map Entry.item) ++ (documentEnd .closing).text
    have later : rest.AtCommand := CommandText.atCommand_row _ (Text.atCommand_backslash _)
    have simple : Simple ⟨"appendix".toList, ['\n']⟩ :=
      simple_of_mark (by decide) (by decide) isMarked_lineFeed
    have spelled : Entry.appendix.text = CommandText.text ⟨"appendix".toList, ['\n']⟩ :=
      List.append_nil _
    have read : appendixCommand.read (Entry.appendix.text ++ rest) =
        some ("appendix".toList, '\n' :: rest) := by
      rw [spelled]
      exact simple.proper.controlWord_read (· == "appendix".toList) later
    have starts : (Entry.appendix.text ++ rest).AtCommand := Text.atCommand_backslash _
    have found := Reader.find?_append (wellFormed.appendixCommand_silentOver_front starts)
    rw [Reader.find?_of_read read] at found
    rw [rowOf_cons, List.append_assoc, found]
    simp only [Option.map_some, List.append_nil]

end Source

end Paper
end TexStatements
