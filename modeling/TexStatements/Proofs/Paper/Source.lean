import TexStatements.Proofs.Paper.Basic
import TexStatements.Proofs.Text.Commands
import TexStatements.Proofs.Text.Plain

/-!
# The source of a paper as commands

The source of a paper is a row of commands: those that declare the kinds, the tag that opens the
document, the commands of the items and of the appendix, and the tag that closes the document.
Between the control words stand letters, digits and a few marks only.
-/
namespace TexStatements
namespace Paper

/-- The marks that stand between letters and digits in the source of a paper. -/
def marks : List Char := ['{', '}', '[', ']', '*', ' ', '\n']

/-- A text of letters, digits and marks. -/
def IsMarked (text : Text) : Prop := ∀ c ∈ text, c.isAlphanum = true ∨ c ∈ marks

/-- Letters and digits are such a text. -/
theorem isMarked_of_isAlphanum {text : Text} (plain : ∀ c ∈ text, c.isAlphanum = true) :
    IsMarked text := fun c mem => .inl (plain c mem)

/-- Such texts in a row are one. -/
theorem IsMarked.append {left right : Text} (first : IsMarked left) (second : IsMarked right) :
    IsMarked (left ++ right) := by
  intro c mem
  rcases List.mem_append.1 mem with inLeft | inRight
  · exact first c inLeft
  · exact second c inRight

/-- A group of such a text is one. -/
theorem IsMarked.group {inner : Text} (marked : IsMarked inner) : IsMarked (group inner) := by
  intro c mem
  simp only [Paper.group, List.mem_cons, List.mem_append, List.not_mem_nil, or_false] at mem
  rcases mem with rfl | inside | rfl
  · exact .inr (by decide)
  · exact marked c inside
  · exact .inr (by decide)

/-- A bracket group of such a text is one. -/
theorem IsMarked.bracket {inner : Text} (marked : IsMarked inner) : IsMarked (bracket inner) := by
  intro c mem
  simp only [Paper.bracket, List.mem_cons, List.mem_append, List.not_mem_nil, or_false] at mem
  rcases mem with rfl | inside | rfl
  · exact .inr (by decide)
  · exact marked c inside
  · exact .inr (by decide)

/-- A character that is neither a letter or digit nor a mark does not occur. -/
theorem IsMarked.not_mem {text : Text} (marked : IsMarked text) {c : Char}
    (special : c.isAlphanum = false) (unmarked : c ∉ marks) : c ∉ text := by
  intro mem
  rcases marked c mem with plain | mark
  · rw [special] at plain
    cases plain
  · exact unmarked mark

/-- A command as the source of a paper has it: a word of letters, a mark, and what is marked. -/
structure Simple (command : CommandText) : Prop where
  /-- The word is of letters. -/
  letters : ∀ letter ∈ command.word, letter.isAlpha = true
  /-- A mark follows the word. -/
  ends : ∀ first ∈ command.after.head?, first ∈ marks
  /-- The text behind the word is marked. -/
  marked : IsMarked command.after

/-- A command of a paper is read as it is written. -/
theorem Simple.proper {command : CommandText} (simple : Simple command) : command.Proper where
  letters letter mem := isControlLetter_of_isAlpha (simple.letters letter mem)
  ends first isFirst := by
    have noLetter : ∀ mark ∈ marks, isControlLetter mark = false := by decide
    exact noLetter first (simple.ends first isFirst)
  single := simple.marked.not_mem (by decide) (by decide)

/-- A command of a paper has no percent sign. -/
theorem Simple.percent_not_mem {command : CommandText} (simple : Simple command) :
    '%' ∉ command.text := by
  have word : '%' ∉ command.word := by
    intro mem
    exact absurd (simple.letters _ mem) (by decide)
  have after : '%' ∉ command.after := simple.marked.not_mem (by decide) (by decide)
  simp [CommandText.text, word, after]

/-- The star of the command that declares a kind without numbers. -/
def Kind.star (kind : Kind) : Text :=
  match kind.numbering with
  | .starred => ['*']
  | _ => []

/-- The arguments of the command that declares a kind. -/
def Kind.arguments (kind : Kind) : Text :=
  match kind.numbering with
  | .shared other => group kind.name ++ (bracket other ++ group kind.caption)
  | .within level => group kind.name ++ (group kind.caption ++ bracket level.counter)
  | _ => group kind.name ++ group kind.caption

/-- The command that declares a kind. -/
def Kind.command (kind : Kind) : CommandText :=
  ⟨"newtheorem".toList, kind.star ++ (kind.arguments ++ ['\n'])⟩

/-- The commands of a line in the body of the source. -/
def Item.commands : Item → List CommandText
  | .heading level starred title =>
    [⟨level.counter, (if starred then ['*'] else []) ++ group title ++ ['\n']⟩]
  | .statement kind none body =>
    [⟨"begin".toList, group kind ++ body⟩, ⟨"end".toList, group kind ++ ['\n']⟩]
  | .statement kind (some label) body =>
    [⟨"begin".toList, group kind⟩, ⟨"label".toList, group label ++ body⟩,
      ⟨"end".toList, group kind ++ ['\n']⟩]

/-- A line in the body of the source: an item, or the command that starts the appendix. -/
inductive Entry where
  /-- An item. -/
  | item (item : Item)
  /-- The start of the appendix. -/
  | appendix

/-- The commands of a line. -/
def Entry.commands : Entry → List CommandText
  | .item content => content.commands
  | .appendix => [⟨"appendix".toList, ['\n']⟩]

/-- The source of a line, with its line feed. -/
def Entry.text (entry : Entry) : Text := CommandText.row entry.commands

/-- The appendix as lines of the source. -/
def appendixEntries (paper : Paper) : List Entry :=
  match paper.appendix? with
  | some items => .appendix :: items.map .item
  | none => []

/-- The lines of the body of the source. -/
def entries (paper : Paper) : List Entry := paper.main.map .item ++ paper.appendixEntries

/-- The tag that starts or ends the document, with the line feed behind it. -/
def documentEnd (part : Environment.End) : CommandText :=
  ⟨part.word, group "document".toList ++ ['\n']⟩

/-- The commands of the document environment. -/
def body (paper : Paper) : List CommandText :=
  documentEnd .opening :: (paper.entries.flatMap Entry.commands ++ [documentEnd .closing])

/-- The commands of the source. -/
def commands (paper : Paper) : List CommandText := paper.kinds.map Kind.command ++ paper.body

/-- A command that starts or ends an environment starts with its tag. -/
theorem text_eq_tag {command : CommandText} {part : Environment.End} {name after : Text}
    (isTag : command.word = part.word) (named : command.after = group name ++ after) :
    command.text = part.tag name ++ after := by
  simp [CommandText.text, Environment.End.tag, isTag, named, group]

/-- The command at an end of the document is its tag. -/
theorem text_documentEnd (part : Environment.End) :
    (documentEnd part).text = part.tag "document".toList ++ ['\n'] := text_eq_tag rfl rfl

/-- The command of a kind is its line. -/
theorem Kind.text_command (kind : Kind) : kind.command.text = kind.line ++ ['\n'] := by
  have plain : "\\newtheorem".toList = '\\' :: "newtheorem".toList := rfl
  have starred : "\\newtheorem*".toList = '\\' :: ("newtheorem".toList ++ ['*']) := rfl
  unfold command star arguments line CommandText.text
  cases kind.numbering <;>
    simp only [plain, starred, List.cons_append, List.append_assoc, List.nil_append]

/-- The commands of an item are its line. -/
theorem Item.row_commands (item : Item) : CommandText.row item.commands = item.line ++ ['\n'] := by
  cases item with
  | heading level starred title => simp [commands, line, CommandText.text]
  | statement kind label? body =>
    have opening (after : Text) : CommandText.text ⟨"begin".toList, group kind ++ after⟩ =
        Environment.beginTag kind ++ after := text_eq_tag rfl rfl
    have closing : CommandText.text ⟨"end".toList, group kind ++ ['\n']⟩ =
        Environment.endTag kind ++ ['\n'] := text_eq_tag rfl rfl
    cases label? with
    | none =>
      simp only [commands, line, inside_none, CommandText.row_cons, CommandText.row_nil, opening,
        closing, List.append_assoc, List.append_nil]
    | some label =>
      have unlabelled := opening []
      rw [List.append_nil, List.append_nil] at unlabelled
      have labelled : CommandText.text ⟨"label".toList, group label ++ body⟩ =
          inside (some label) body := rfl
      simp only [commands, line, CommandText.row_cons, CommandText.row_nil, unlabelled, labelled,
        closing, List.append_assoc, List.append_nil]

/-- The source of a paper is that of its commands. -/
theorem render_eq_row (paper : Paper) : paper.render = CommandText.row paper.commands := by
  have items : ∀ items : List Item, (items.map Item.line).flatMap (· ++ ['\n']) =
      CommandText.row ((items.map Entry.item).flatMap Entry.commands) := by
    intro items
    induction items with
    | nil => rfl
    | cons item more ih =>
      simp only [List.map_cons, List.flatMap_cons, CommandText.row_append, ih, Entry.commands,
        Item.row_commands]
  have kinds : (paper.kinds.map Kind.line).flatMap (· ++ ['\n']) =
      CommandText.row (paper.kinds.map Kind.command) := by
    rw [CommandText.row, List.flatMap_map, List.flatMap_map]
    exact List.flatMap_congr fun kind _ => kind.text_command.symm
  have appendix : paper.appendixLines.flatMap (· ++ ['\n']) =
      CommandText.row (paper.appendixEntries.flatMap Entry.commands) := by
    unfold appendixLines appendixEntries
    cases paper.appendix? with
    | none => rfl
    | some appendix =>
      rw [List.flatMap_cons, items, List.flatMap_cons, CommandText.row_append]
      simp [Entry.commands, CommandText.text]
  simp only [render, lines, List.flatMap_append, kinds, items, appendix, commands, body,
    entries, CommandText.row_append, CommandText.row_cons]
  simp [text_documentEnd, Environment.beginTag, Environment.endTag]

/-- A line of the body that the grammar of papers admits. -/
def Entry.WellFormed (names : List Text) : Entry → Prop
  | .item content => content.WellFormed names
  | .appendix => True

/-- The words of levels are of letters. -/
theorem isAlpha_counter (level : SectionLevel) :
    ∀ letter ∈ level.counter, letter.isAlpha = true := by
  cases level <;> decide

/-- Words consist of letters and digits. -/
theorem IsWord.isAlphanum {text : Text} (word : IsWord text) :
    ∀ c ∈ text, c.isAlphanum = true := fun c mem => isAlphanum_of_isAlpha (word.2 c mem)

/-- A command of letters that a mark follows is simple. -/
theorem simple_of_mark {word after : Text} {mark : Char}
    (letters : ∀ letter ∈ word, letter.isAlpha = true) (isMark : mark ∈ marks)
    (marked : IsMarked (mark :: after)) : Simple ⟨word, mark :: after⟩ where
  letters := letters
  ends first isFirst := by
    have same : mark = first := Option.some.inj isFirst
    exact same ▸ isMark
  marked := marked

/-- A command that starts with a group is simple. -/
theorem simple_of_group {word inner after : Text} (letters : ∀ letter ∈ word, letter.isAlpha = true)
    (plain : ∀ c ∈ inner, c.isAlphanum = true) (marked : IsMarked after) :
    Simple ⟨word, group inner ++ after⟩ :=
  simple_of_mark letters (by decide) ((isMarked_of_isAlphanum plain).group.append marked)

/-- A line feed is a mark. -/
theorem isMarked_lineFeed : IsMarked ['\n'] := by
  intro c mem
  rw [List.mem_singleton.1 mem]
  exact .inr (by decide)

/-- A star is a mark. -/
theorem isMarked_star : IsMarked ['*'] := by
  intro c mem
  rw [List.mem_singleton.1 mem]
  exact .inr (by decide)

/-- The commands of an admitted line are simple. -/
theorem Entry.simple {names : List Text} (words : ∀ name ∈ names, IsWord name) {entry : Entry}
    (admitted : entry.WellFormed names) : ∀ command ∈ entry.commands, Simple command := by
  intro command mem
  cases entry with
  | appendix =>
    obtain rfl := List.mem_singleton.1 mem
    exact simple_of_mark (by decide) (by decide) isMarked_lineFeed
  | item item =>
    cases item with
    | heading level starred title =>
      have plain : ∀ c ∈ title, c.isAlphanum = true :=
        fun c inTitle => isAlphanum_of_isAlpha (admitted c inTitle)
      obtain rfl := List.mem_singleton.1 mem
      have numbered := simple_of_group (isAlpha_counter level) plain isMarked_lineFeed
      cases starred with
      | false => exact numbered
      | true =>
        have marked : IsMarked (['*'] ++ (group title ++ ['\n'])) :=
          isMarked_star.append numbered.marked
        exact simple_of_mark numbered.letters (by decide) marked
    | statement kind label? body =>
      obtain ⟨declared, labelPlain, -, bodyPlain, -⟩ := admitted
      have name := (words kind declared).isAlphanum
      have bodyMarked : IsMarked body := fun c inBody =>
        (bodyPlain c inBody).imp_right fun space => by
          rw [space]
          decide
      cases label? with
      | none =>
        simp only [commands, Item.commands, List.mem_cons, List.not_mem_nil, or_false] at mem
        rcases mem with rfl | rfl
        · exact simple_of_group (by decide) name bodyMarked
        · exact simple_of_group (by decide) name isMarked_lineFeed
      | some label =>
        simp only [commands, Item.commands, List.mem_cons, List.not_mem_nil, or_false] at mem
        rcases mem with rfl | rfl | rfl
        · have nothing : IsMarked [] := fun c inNothing => nomatch inNothing
          have simple : Simple ⟨"begin".toList, group kind ++ []⟩ :=
            simple_of_group (by decide) name nothing
          rwa [List.append_nil] at simple
        · exact simple_of_group (by decide) (labelPlain label rfl) bodyMarked
        · exact simple_of_group (by decide) name isMarked_lineFeed

/-- The lines of the body of an admitted paper are admitted. -/
theorem WellFormed.entries {paper : Paper} (wellFormed : paper.WellFormed) :
    ∀ entry ∈ paper.entries, entry.WellFormed (paper.kinds.map Kind.name) := by
  intro entry mem
  rcases List.mem_append.1 mem with inMain | inAppendix
  · obtain ⟨item, inItems, rfl⟩ := List.mem_map.1 inMain
    exact wellFormed.items item (List.mem_append_left _ inItems)
  · unfold appendixEntries at inAppendix
    cases isAppendix : paper.appendix? with
    | none =>
      rw [isAppendix] at inAppendix
      cases inAppendix
    | some items =>
      rw [isAppendix] at inAppendix
      rcases List.mem_cons.1 inAppendix with rfl | inItems
      · trivial
      · obtain ⟨item, inItems, rfl⟩ := List.mem_map.1 inItems
        refine wellFormed.items item (List.mem_append_right _ ?_)
        simpa [appendixItems, isAppendix] using inItems

/-- The name of a kind is a word. -/
theorem WellFormed.isWord {paper : Paper} (wellFormed : paper.WellFormed) :
    ∀ name ∈ paper.kinds.map Kind.name, IsWord name := by
  intro name mem
  obtain ⟨kind, declared, rfl⟩ := List.mem_map.1 mem
  exact (wellFormed.names kind declared).1

/-- A counter is shared with a declared kind. -/
theorem WellFormed.exists_owner {paper : Paper} (wellFormed : paper.WellFormed) {kind : Kind}
    (declared : kind ∈ paper.kinds) {other : Text} (shared : kind.numbering = .shared other) :
    ∃ owner ∈ paper.kinds, owner.name = other := by
  have shares : other ∈ kind.shared? := by
    rw [Kind.shared?, shared]
    rfl
  obtain ⟨owner, isOwner, same, -⟩ := wellFormed.shares kind declared other shares
  exact ⟨owner, isOwner, same⟩

/-- The arguments of an admitted kind start with a brace and are marked. -/
theorem WellFormed.arguments {paper : Paper} (wellFormed : paper.WellFormed) {kind : Kind}
    (declared : kind ∈ paper.kinds) :
    kind.arguments.head? = some '{' ∧ IsMarked kind.arguments := by
  have name := (isMarked_of_isAlphanum (wellFormed.names kind declared).1.isAlphanum).group
  have caption := (isMarked_of_isAlphanum (wellFormed.captions kind declared).isAlphanum).group
  unfold Kind.arguments
  cases numbering : kind.numbering with
  | plain => exact ⟨rfl, name.append caption⟩
  | starred => exact ⟨rfl, name.append caption⟩
  | shared other =>
    obtain ⟨owner, isOwner, rfl⟩ := wellFormed.exists_owner declared numbering
    have word := (wellFormed.names owner isOwner).1
    have counter := (isMarked_of_isAlphanum word.isAlphanum).bracket
    exact ⟨rfl, name.append (counter.append caption)⟩
  | within level =>
    have letters := isAlpha_counter level
    have counter : IsMarked (bracket level.counter) :=
      (isMarked_of_isAlphanum fun c mem => isAlphanum_of_isAlpha (letters c mem)).bracket
    exact ⟨rfl, name.append (caption.append counter)⟩

/-- The command that declares an admitted kind is simple. -/
theorem WellFormed.simple_kind {paper : Paper} (wellFormed : paper.WellFormed) {kind : Kind}
    (declared : kind ∈ paper.kinds) : Simple kind.command := by
  obtain ⟨starts, marked⟩ := wellFormed.arguments declared
  have after := marked.append isMarked_lineFeed
  have star : kind.star = [] ∨ kind.star = ['*'] := by
    unfold Kind.star
    cases kind.numbering <;> simp
  have letters : ∀ letter ∈ "newtheorem".toList, letter.isAlpha = true := by decide
  unfold Kind.command
  rcases star with none | some
  · rw [none, List.nil_append]
    refine ⟨letters, ?_, after⟩
    intro first isFirst
    rw [List.head?_append, starts, Option.some_or] at isFirst
    have brace : '{' = first := Option.some.inj isFirst
    rw [← brace]
    decide
  · rw [some]
    exact ⟨letters, by simp [marks], isMarked_star.append after⟩

/-- A command of the document environment is one of its tags or stands in a line. -/
theorem mem_body {paper : Paper} {command : CommandText} :
    command ∈ paper.body ↔ (∃ part, command = documentEnd part) ∨
      ∃ entry ∈ paper.entries, command ∈ entry.commands := by
  simp only [body, List.mem_cons, List.mem_append, List.mem_flatMap, List.not_mem_nil, or_false]
  constructor
  · rintro (isOpening | inside | isClosing)
    · exact .inl ⟨.opening, isOpening⟩
    · exact .inr inside
    · exact .inl ⟨.closing, isClosing⟩
  · rintro (⟨part, isTag⟩ | inside)
    · cases part with
      | opening => exact .inl isTag
      | closing => exact .inr (.inr isTag)
    · exact .inr (.inl inside)

/-- The commands of the document environment of an admitted paper are simple. -/
theorem WellFormed.simple_body {paper : Paper} (wellFormed : paper.WellFormed) :
    ∀ command ∈ paper.body, Simple command := by
  intro command mem
  rcases mem_body.1 mem with ⟨part, rfl⟩ | ⟨entry, inEntries, inEntry⟩
  · have letters : ∀ letter ∈ part.word, letter.isAlpha = true := by cases part <;> decide
    have document : ∀ c ∈ "document".toList, c.isAlphanum = true := by decide
    exact simple_of_group letters document isMarked_lineFeed
  · exact Entry.simple wellFormed.isWord (wellFormed.entries entry inEntries) command inEntry

/-- The commands of an admitted paper are simple. -/
theorem WellFormed.simple {paper : Paper} (wellFormed : paper.WellFormed) :
    ∀ command ∈ paper.commands, Simple command := by
  intro command mem
  rcases List.mem_append.1 mem with inKinds | inBody
  · obtain ⟨kind, declared, rfl⟩ := List.mem_map.1 inKinds
    exact wellFormed.simple_kind declared
  · exact wellFormed.simple_body command inBody

/-- The control words of statements. -/
def statementWords : List Text := ["begin", "end", "label"].map String.toList

/-- The control words of a statement. -/
theorem word_mem_statementWords (kind : Text) (label? : Option Text) (body : Text) :
    ∀ command ∈ (Item.statement kind label? body).commands, command.word ∈ statementWords := by
  have start : "begin".toList ∈ statementWords := by decide
  have stop : "end".toList ∈ statementWords := by decide
  have label : "label".toList ∈ statementWords := by decide
  intro command mem
  cases label? <;> simp only [Item.commands, List.mem_cons, List.not_mem_nil, or_false] at mem
  · rcases mem with rfl | rfl
    · exact start
    · exact stop
  · rcases mem with rfl | rfl | rfl
    · exact start
    · exact label
    · exact stop

/-- The control words of items. -/
def itemWords : List Text := statementWords ++ SectionLevel.all.map SectionLevel.counter

/-- The control words of an item. -/
theorem Item.word_mem_itemWords (item : Item) :
    ∀ command ∈ item.commands, command.word ∈ itemWords := by
  intro command mem
  cases item with
  | heading level starred title =>
    obtain rfl := List.mem_singleton.1 mem
    show level.counter ∈ itemWords
    cases level <;> decide
  | statement kind label? body =>
    exact List.mem_append_left _ (word_mem_statementWords kind label? body command mem)

/-- The control words of the document environment. -/
def bodyWords : List Text := "appendix".toList :: itemWords

/-- The control words of papers. -/
def words : List Text := "newtheorem".toList :: bodyWords

/-- The control words of the document environment of a paper. -/
theorem word_mem_bodyWords (paper : Paper) :
    ∀ command ∈ paper.body, command.word ∈ bodyWords := by
  intro command mem
  rcases mem_body.1 mem with ⟨part, rfl⟩ | ⟨entry, -, inEntry⟩
  · show part.word ∈ bodyWords
    cases part <;> decide
  · cases entry with
    | item content => exact List.mem_cons_of_mem _ (content.word_mem_itemWords command inEntry)
    | appendix =>
      obtain rfl := List.mem_singleton.1 inEntry
      show "appendix".toList ∈ bodyWords
      decide

/-- The control words of a paper. -/
theorem word_mem_words (paper : Paper) : ∀ command ∈ paper.commands, command.word ∈ words := by
  intro command mem
  rcases List.mem_append.1 mem with inKinds | inBody
  · obtain ⟨kind, -, rfl⟩ := List.mem_map.1 inKinds
    exact List.mem_cons_self ..
  · exact List.mem_cons_of_mem _ (paper.word_mem_bodyWords command inBody)

/-- The name of a kind is none of the reserved ones. -/
theorem WellFormed.ne_reserved {paper : Paper} (wellFormed : paper.WellFormed) {kind : Kind}
    (declared : kind ∈ paper.kinds) {name : Text} (reserved : name ∈ reservedNames) :
    kind.name ≠ name := by
  rintro rfl
  exact (wellFormed.names kind declared).2 reserved

/-- The environments of a paper: the document and its kinds. -/
def environments (paper : Paper) : List Text := "document".toList :: paper.kinds.map Kind.name

/-- The environments of an admitted paper are named by words. None hides its text and none starts
the appendix. -/
theorem WellFormed.environment {paper : Paper} (wellFormed : paper.WellFormed) :
    ∀ name ∈ paper.environments,
      IsWord name ∧ name ≠ "comment".toList ∧ name ≠ "appendix".toList := by
  intro name mem
  rcases List.mem_cons.1 mem with rfl | declared
  · decide
  · obtain ⟨kind, isKind, rfl⟩ := List.mem_map.1 declared
    exact ⟨(wellFormed.names kind isKind).1, wellFormed.ne_reserved isKind (by decide),
      wellFormed.ne_reserved isKind (by decide)⟩

/-- A command of a paper that starts or ends an environment names it. -/
theorem WellFormed.exists_name {paper : Paper} (wellFormed : paper.WellFormed)
    {command : CommandText} (mem : command ∈ paper.commands) {part : Environment.End}
    (isTag : command.word = part.word) :
    ∃ name ∈ paper.environments, ∃ after, command.after = group name ++ after := by
  have noDeclaration : "newtheorem".toList ≠ part.word := by cases part <;> decide
  have noLevel : ∀ level : SectionLevel, level.counter ≠ part.word := by
    intro level
    cases level <;> cases part <;> decide
  have noLabel : "label".toList ≠ part.word := by cases part <;> decide
  have noAppendix : "appendix".toList ≠ part.word := by cases part <;> decide
  rcases List.mem_append.1 mem with inKinds | inBody
  · obtain ⟨kind, -, rfl⟩ := List.mem_map.1 inKinds
    exact absurd isTag noDeclaration
  rcases mem_body.1 inBody with ⟨other, rfl⟩ | ⟨entry, inEntries, inEntry⟩
  · exact ⟨_, List.mem_cons_self .., _, rfl⟩
  have admitted := wellFormed.entries entry inEntries
  cases entry with
  | appendix =>
    obtain rfl := List.mem_singleton.1 inEntry
    exact absurd isTag noAppendix
  | item content =>
    cases content with
    | heading level starred title =>
      obtain rfl := List.mem_singleton.1 inEntry
      exact absurd isTag (noLevel level)
    | statement kind label? body =>
      have known : kind ∈ paper.environments := List.mem_cons_of_mem _ admitted.1
      refine ⟨kind, known, ?_⟩
      cases label? with
      | none =>
        rcases List.mem_cons.1 inEntry with rfl | inEntry
        · exact ⟨body, rfl⟩
        · obtain rfl := List.mem_singleton.1 inEntry
          exact ⟨['\n'], rfl⟩
      | some label =>
        rcases List.mem_cons.1 inEntry with rfl | inEntry
        · exact ⟨[], (List.append_nil _).symm⟩
        rcases List.mem_cons.1 inEntry with rfl | inEntry
        · exact absurd isTag noLabel
        · obtain rfl := List.mem_singleton.1 inEntry
          exact ⟨['\n'], rfl⟩

end Paper
end TexStatements
