import TexStatements.Proofs.Paper.Numbering
import TexStatements.Proofs.Statement.Agreement

/-!
# Layout of a paper

The lines of a paper stand one behind the other in its source, each at a byte offset. The body of
the source has an outline with one environment for each statement, and no tag that is looked for
stands in the texts between.
-/
namespace TexStatements
namespace Paper

open Environment (End)

section Lines

/-- The lines of the body as one text. -/
def rowOf (entries : List Entry) : Text := CommandText.row (entries.flatMap Entry.commands)

/-- A body without lines is empty. -/
@[simp] theorem rowOf_nil : rowOf [] = [] := rfl

/-- The first line stands in front of the others. -/
@[simp] theorem rowOf_cons (entry : Entry) (more : List Entry) :
    rowOf (entry :: more) = entry.text ++ rowOf more := by
  simp [rowOf, Entry.text]

/-- Lines in a row are one text after the other. -/
@[simp] theorem rowOf_append (front more : List Entry) :
    rowOf (front ++ more) = rowOf front ++ rowOf more := by
  simp [rowOf]

/-- The commands that declare the kinds. -/
def kindRow (paper : Paper) : Text := CommandText.row (paper.kinds.map Kind.command)

/-- The source of a statement is its environment and a line feed. -/
theorem text_statement (kind : Text) (label? : Option Text) (body : Text) :
    (Entry.item (.statement kind label? body)).text =
      End.opening.tag kind ++ (inside label? body ++ (End.closing.tag kind ++ ['\n'])) := by
  rw [Entry.text, Entry.commands, Item.row_commands, Item.line]
  simp only [Environment.beginTag, Environment.endTag, List.append_assoc]

/-- A line is not empty. -/
theorem byteLength_text_pos (entry : Entry) : 0 < entry.text.byteLength := by
  have slash : ∃ tail, entry.text = '\\' :: tail := by
    cases entry with
    | appendix => exact ⟨_, rfl⟩
    | item content =>
      cases content with
      | heading level starred title => exact ⟨_, rfl⟩
      | statement kind label? body => cases label? <;> exact ⟨_, rfl⟩
  obtain ⟨tail, spelled⟩ := slash
  have first := Char.utf8Size_pos '\\'
  rw [spelled, Text.byteLength_cons]
  omega

/-- The item of a line, if it is one. -/
def Entry.item? : Entry → Option Item
  | .item content => some content
  | .appendix => none

/-- The items of lines with their byte offsets, in a text that starts at an offset. -/
def placedFrom (start : Nat) : List Entry → List (Nat × Item)
  | [] => []
  | .item content :: more =>
    (start, content) :: placedFrom (start + (Entry.item content).text.byteLength) more
  | .appendix :: more => placedFrom (start + Entry.appendix.text.byteLength) more

/-- The items of lines in a row. -/
theorem placedFrom_append (start : Nat) (front more : List Entry) :
    placedFrom start (front ++ more) =
      placedFrom start front ++ placedFrom (start + (rowOf front).byteLength) more := by
  induction front generalizing start with
  | nil => rfl
  | cons entry front ih =>
    have size : start + (rowOf (entry :: front)).byteLength =
        start + entry.text.byteLength + (rowOf front).byteLength := by
      rw [rowOf_cons, Text.byteLength_append]
      omega
    rw [size, List.cons_append]
    cases entry with
    | item content => rw [placedFrom, placedFrom, ih, List.cons_append]
    | appendix => rw [placedFrom, placedFrom, ih]

/-- Items lie in the text of their lines. -/
theorem mem_placedFrom {start : Nat} {entries : List Entry} {place : Nat × Item}
    (mem : place ∈ placedFrom start entries) :
    start ≤ place.1 ∧ place.1 < start + (rowOf entries).byteLength := by
  induction entries generalizing start with
  | nil => cases mem
  | cons entry more ih =>
    have positive := byteLength_text_pos entry
    rw [rowOf_cons, Text.byteLength_append]
    cases entry with
    | item content =>
      rcases List.mem_cons.1 mem with rfl | later
      · dsimp only
        omega
      · have bounds := ih later
        omega
    | appendix =>
      have bounds := ih mem
      omega

/-- Items stand in order. -/
theorem pairwise_placedFrom (start : Nat) (entries : List Entry) :
    (placedFrom start entries).Pairwise fun left right => left.1 < right.1 := by
  induction entries generalizing start with
  | nil => exact List.Pairwise.nil
  | cons entry more ih =>
    cases entry with
    | appendix => exact ih _
    | item content =>
      have positive := byteLength_text_pos (.item content)
      refine List.pairwise_cons.2 ⟨?_, ih _⟩
      intro place later
      have bounds := mem_placedFrom later
      dsimp only
      omega

/-- The items of lines, without their offsets. -/
theorem map_snd_placedFrom (start : Nat) (entries : List Entry) :
    (placedFrom start entries).map Prod.snd = entries.filterMap Entry.item? := by
  induction entries generalizing start with
  | nil => rfl
  | cons entry more ih =>
    cases entry with
    | item content => exact congrArg (content :: ·) (ih _)
    | appendix => exact ih _

end Lines

section Outline

/-- The outline of lines behind a front and of the tag that closes the document. -/
def outlineFrom (front : Text) : List Entry → Outline
  | [] => .plain (front ++ (documentEnd .closing).text)
  | .item (.statement kind label? body) :: more =>
    .environment front kind (.plain (inside label? body)) (outlineFrom ['\n'] more)
  | .item (.heading level starred title) :: more =>
    outlineFrom (front ++ (Entry.item (.heading level starred title)).text) more
  | .appendix :: more => outlineFrom (front ++ Entry.appendix.text) more

/-- The outline of lines is one of their source. -/
theorem text_outlineFrom (front : Text) (entries : List Entry) :
    (outlineFrom front entries).text =
      front ++ (rowOf entries ++ (documentEnd .closing).text) := by
  induction entries generalizing front with
  | nil => rfl
  | cons entry more ih =>
    rw [rowOf_cons]
    cases entry with
    | appendix => rw [outlineFrom, ih, List.append_assoc, List.append_assoc]
    | item content =>
      cases content with
      | heading level starred title => rw [outlineFrom, ih, List.append_assoc, List.append_assoc]
      | statement kind label? body =>
        rw [outlineFrom, Outline.text_environment, ih, text_statement]
        simp only [Outline.text_plain, List.append_assoc]

/-- The occurrence of an item at an offset, if it is a statement. -/
def occurrence? : Nat × Item → Option Occurrence
  | (offset, .statement kind label? body) =>
    let bodyStart := offset + (End.opening.tag kind).byteLength
    let bodyStop := bodyStart + (inside label? body).byteLength
    let stop := bodyStop + (End.closing.tag kind).byteLength
    some ⟨kind, offset, stop, inside label? body, .main, 0⟩
  | (_, .heading _ _ _) => none

/-- The occurrences of the outline are the statements at the offsets of their lines. -/
theorem occurrencesFrom_outlineFrom (front : Text) (start : Nat) (entries : List Entry) :
    (outlineFrom front entries).occurrencesFrom start =
      (placedFrom (start + front.byteLength) entries).filterMap occurrence? := by
  induction entries generalizing front start with
  | nil => rfl
  | cons entry more ih =>
    cases entry with
    | appendix =>
      rw [outlineFrom, ih, placedFrom, Text.byteLength_append, Nat.add_assoc]
    | item content =>
      cases content with
      | heading level starred title =>
        rw [outlineFrom, ih, placedFrom, Text.byteLength_append, ← Nat.add_assoc]
        rfl
      | statement kind label? body =>
        rw [outlineFrom, Outline.occurrencesFrom, ih, placedFrom, List.filterMap_cons]
        simp only [occurrence?, Outline.text_plain, Outline.occurrencesFrom, List.nil_append,
          text_statement, Text.byteLength_append, Nat.add_assoc]

end Outline

section Tags

open Environment (tagReader Spellable)

variable {paper : Paper}

/-- A tag is read where its control word is. -/
theorem guarded_tagReader (part : End) (name : Text) :
    (tagReader part name).Guarded fun word => word == part.word := by
  intro text unread
  cases read : (tagReader part name).read text with
  | none => rfl
  | some found =>
    have whole := Environment.tagReader_read_eq_some read
    have letters : ∀ letter ∈ part.word, isControlLetter letter = true := by
      cases part <;> decide
    have brace : ∀ first ∈ ('{' :: (name ++ ['}']) ++ found.2).head?,
        isControlLetter first = false := by
      simp [isControlLetter]
    have word := Reader.controlWord_read (fun word => word == part.word) letters brace
    rw [whole, End.tag_eq_cons, List.cons_append, List.append_assoc, word] at unread
    simp at unread

/-- A tag that is passed over does not occur. -/
theorem not_infix_of_silentOver {part : End} {name text : Text}
    (silent : (tagReader part name).SilentOver text []) : ¬ part.tag name <:+: text := by
  rintro ⟨front, rest, whole⟩
  have suffix : part.tag name ++ rest <:+ text := ⟨front, by rw [← List.append_assoc, whole]⟩
  have nonempty : part.tag name ++ rest ≠ [] :=
    List.append_ne_nil_of_left_ne_nil (part.tag_ne_nil name) rest
  have unread := silent _ suffix nonempty
  rw [List.append_nil, Environment.tagReader_read] at unread
  cases unread

/-- A word leaves the tag around it readable. -/
theorem spellable_of_isWord {name : Text} (word : IsWord name) : Spellable name := by
  constructor
  · exact fun mem => ne_of_isAlphanum (word.isAlphanum _ mem) '\\' (by decide) rfl
  · exact fun mem => ne_of_isAlphanum (word.isAlphanum _ mem) '}' (by decide) rfl

/-- The names in tags that the passes behind normalization look for. -/
def tagNames (paper : Paper) : List Text := canonicalEnvironment :: paper.kinds.map Kind.name

/-- These names are readable, and the document is none of them. -/
theorem WellFormed.tagName (wellFormed : paper.WellFormed) :
    ∀ name ∈ paper.tagNames, Spellable name ∧ name ≠ "document".toList := by
  intro name mem
  rcases List.mem_cons.1 mem with rfl | declared
  · exact ⟨Environment.spellable_canonicalEnvironment, by decide⟩
  · obtain ⟨kind, isKind, rfl⟩ := List.mem_map.1 declared
    have word := (wellFormed.names kind isKind).1
    exact ⟨spellable_of_isWord word, wellFormed.ne_reserved isKind (by decide)⟩

/-- A text that is passed over by the readers of these tags, whatever command follows. -/
def TagFree (paper : Paper) (text : Text) : Prop :=
  ∀ part, ∀ name ∈ paper.tagNames, ∀ rest, rest.AtCommand →
    (tagReader part name).SilentOver text rest

/-- Texts without a tag in a row have none. -/
theorem TagFree.append {front more : Text} (first : TagFree paper front)
    (second : TagFree paper more) (starts : more.AtCommand) : TagFree paper (front ++ more) := by
  intro part name known rest atCommand
  exact (first part name known _ (Text.atCommand_append starts atCommand)).append
    (second part name known rest atCommand)

/-- A text without a backslash has no tag. -/
theorem tagFree_of_not_mem {text : Text} (free : '\\' ∉ text) : TagFree paper text :=
  fun part name _ rest _ => (Environment.tagReader_readsCommands part name).silentOver rest free

/-- Commands that start or end no environment have no tag. -/
theorem tagFree_row {commands : List CommandText}
    (proper : ∀ command ∈ commands, command.Proper)
    (others : ∀ command ∈ commands, ∀ part : End, command.word ≠ part.word) :
    TagFree paper (CommandText.row commands) := by
  intro part name _ rest starts
  apply (guarded_tagReader part name).silentOver_row proper starts
  intro command mem
  exact beq_eq_false_iff_ne.2 (others command mem part)

/-- The tags of the document are not among those that are looked for. -/
theorem WellFormed.tagFree_documentEnd (wellFormed : paper.WellFormed) (part : End) :
    TagFree paper (documentEnd part).text := by
  intro other name known rest _
  obtain ⟨spellable, different⟩ := wellFormed.tagName name known
  rw [text_documentEnd]
  have tag : (tagReader other name).SilentOver (part.tag "document".toList) (['\n'] ++ rest) :=
    Environment.tagReader_silentOver_tag spellable (by decide) fun _ => different
  have lineFeed := (Environment.tagReader_readsCommands other name).silentOver rest
    (show '\\' ∉ ['\n'] by decide)
  exact tag.append lineFeed

/-- The text between the tags of an admitted statement has no tag. -/
theorem tagFree_inside {names : List Text} {kind : Text} {label? : Option Text} {body : Text}
    (words : ∀ name ∈ names, IsWord name)
    (admitted : (Item.statement kind label? body).WellFormed names) :
    TagFree paper (inside label? body) := by
  have bodyPlain := admitted.2.2.2.1
  cases label? with
  | none =>
    apply tagFree_of_not_mem
    intro mem
    rcases bodyPlain _ mem with plain | space
    · exact absurd plain (by decide)
    · exact absurd space (by decide)
  | some label =>
    have line : Entry.WellFormed names (.item (.statement kind (some label) body)) := admitted
    have simple : Simple ⟨"label".toList, group label ++ body⟩ :=
      Entry.simple words line _ (by simp [Entry.commands, Item.commands])
    have row : inside (some label) body =
        CommandText.row [⟨"label".toList, group label ++ body⟩] := by
      simp [CommandText.text]
    rw [row]
    apply tagFree_row
    · intro command mem
      rw [List.mem_singleton.1 mem]
      exact simple.proper
    · intro command mem part
      rw [List.mem_singleton.1 mem]
      show "label".toList ≠ part.word
      cases part <;> decide

/-- A heading and the start of the appendix have no tag. -/
theorem tagFree_text {names : List Text} {entry : Entry} (words : ∀ name ∈ names, IsWord name)
    (admitted : entry.WellFormed names)
    (other : ∀ kind label? body, entry ≠ .item (.statement kind label? body)) :
    TagFree paper entry.text := by
  apply tagFree_row
  · exact fun command mem => (Entry.simple words admitted command mem).proper
  · intro command mem part
    cases entry with
    | appendix =>
      obtain rfl := List.mem_singleton.1 mem
      show "appendix".toList ≠ part.word
      cases part <;> decide
    | item content =>
      cases content with
      | heading level starred title =>
        obtain rfl := List.mem_singleton.1 mem
        show level.counter ≠ part.word
        cases level <;> cases part <;> decide
      | statement kind label? body => exact absurd rfl (other kind label? body)

/-- Between the tags of the outline of admitted lines there is no tag. -/
theorem WellFormed.between_outlineFrom (wellFormed : paper.WellFormed) {front : Text}
    (free : TagFree paper front) {entries : List Entry}
    (admitted : ∀ entry ∈ entries, entry.WellFormed (paper.kinds.map Kind.name)) :
    (outlineFrom front entries).Between (TagFree paper) := by
  induction entries generalizing front with
  | nil =>
    exact free.append (wellFormed.tagFree_documentEnd .closing) (Text.atCommand_backslash _)
  | cons entry more ih =>
    rw [List.forall_mem_cons] at admitted
    cases entry with
    | appendix =>
      refine ih (free.append (tagFree_text wellFormed.isWord admitted.1 ?_)
        (Text.atCommand_backslash _)) admitted.2
      rintro _ _ _ ⟨⟩
    | item content =>
      cases content with
      | heading level starred title =>
        refine ih (free.append (tagFree_text wellFormed.isWord admitted.1 ?_)
          (Text.atCommand_backslash _)) admitted.2
        rintro _ _ _ ⟨⟩
      | statement kind label? body =>
        have lineFeed : TagFree paper ['\n'] := tagFree_of_not_mem (by decide)
        exact ⟨free, tagFree_inside wellFormed.isWord admitted.1, ih lineFeed admitted.2⟩

end Tags

end Paper
end TexStatements
