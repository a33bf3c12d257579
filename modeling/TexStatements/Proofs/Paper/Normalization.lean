import TexStatements.Document
import TexStatements.Proofs.Comment.Scan
import TexStatements.Proofs.Declaration.Reading
import TexStatements.Proofs.Macro.Absence
import TexStatements.Proofs.Paper.Source

/-!
# Normalization of a paper

The source of a paper is normal: no pass of normalization changes it, none warns, and the
declarations that are collected from it are those of its kinds, in order.
-/
namespace TexStatements
namespace Paper

/-- The declaration of a kind. -/
def Kind.declaration (kind : Kind) : Declaration where
  name := kind.name
  caption := kind.caption
  starred := kind.numbering == .starred
  shared? := kind.shared?
  within? := kind.parent?.map SectionLevel.counter

/-- The declarations of a paper. -/
def declarations (paper : Paper) : List Declaration := paper.kinds.map Kind.declaration

/-- The names of the declarations are those of the kinds. -/
theorem names_declarations (paper : Paper) :
    paper.declarations.map Declaration.name = paper.kinds.map Kind.name := by
  simp [declarations, Function.comp_def, Kind.declaration]

/-- The table of the declarations of an admitted paper. -/
def WellFormed.table {paper : Paper} (wellFormed : paper.WellFormed) : DeclarationTable where
  entries := paper.declarations.map fun declaration => (declaration.name, declaration)
  distinct := by
    have names : (paper.declarations.map fun declaration =>
        (declaration.name, declaration)).map Prod.fst = paper.kinds.map Kind.name := by
      rw [← names_declarations]
      simp [Function.comp_def]
    rw [names]
    exact wellFormed.distinct

/-- The normalized source of an admitted paper. -/
def WellFormed.document {paper : Paper} (wellFormed : paper.WellFormed) : Document :=
  ⟨paper.render, wellFormed.table, [], false, []⟩

section Silence

variable {α : Type} {paper : Paper} {reader : Reader α} {accepts : Text → Bool}

/-- A reader that is guarded by other control words than those of papers finds nothing. -/
theorem WellFormed.silentOver_render (wellFormed : paper.WellFormed)
    (guarded : reader.Guarded accepts) (others : ∀ word ∈ words, accepts word = false) :
    reader.SilentOver paper.render [] := by
  rw [render_eq_row]
  apply guarded.silentOver_row
  · exact fun command mem => (wellFormed.simple command mem).proper
  · exact Text.atCommand_nil
  · exact fun command mem => others _ (paper.word_mem_words command mem)

/-- No family of definitions finds a keyword. -/
theorem WellFormed.silentOver_family (wellFormed : paper.WellFormed) (family : DefinitionFamily) :
    (keyword family.words.contains).SilentOver paper.render [] := by
  apply wellFormed.silentOver_render (Reader.guarded_keyword _)
  cases family <;> decide

/-- Carrying out a family of definitions changes nothing. -/
theorem WellFormed.expand_render (wellFormed : paper.WellFormed) (family : DefinitionFamily) :
    family.expand paper.render = ⟨paper.render, NameMap.empty, []⟩ :=
  DefinitionFamily.expand_of_silent (wellFormed.silentOver_family family)

/-- What it expands is the source, by the empty table. -/
theorem WellFormed.expansions_render (wellFormed : paper.WellFormed) (family : DefinitionFamily) :
    family.expansions paper.render = [(NameMap.empty, paper.render)] :=
  DefinitionFamily.expansions_of_silent (wellFormed.silentOver_family family)

/-- There are no aliases. -/
theorem WellFormed.aliases_render (wellFormed : paper.WellFormed) :
    AliasMap.collect paper.render = NameMap.empty := by
  have guarded : aliasPair.Guarded (· == "newaliascnt".toList) := by
    unfold aliasPair counterPair
    exact (((Reader.guarded_controlWord _).filterMap _).thenFlatGroup _).thenFlatGroup _
  exact AliasMap.collect_of_silent (wellFormed.silentOver_render guarded (by decide))

/-- There are no environment definitions. -/
theorem WellFormed.resolveWrappers_render (wellFormed : paper.WellFormed)
    (table : DeclarationTable) :
    table.resolveWrappers paper.render = (paper.render, table, []) := by
  apply DeclarationTable.resolveWrappers_of_silent
  apply wellFormed.silentOver_render (Reader.guarded_keyword _)
  decide

/-- There are no counter edges. -/
theorem WellFormed.counterEdges_render (wellFormed : paper.WellFormed) :
    counterEdges paper.render = [] := by
  have guarded :
      parentPair.Guarded ["numberwithin".toList, "counterwithin".toList].contains := by
    have word : parentWord.Guarded ["numberwithin".toList, "counterwithin".toList].contains := by
      intro text unread
      simp only [parentWord, Reader.andThen, unread, Option.bind_eq_bind, Option.bind_none]
    unfold parentPair counterPair
    exact (word.thenFlatGroup _).thenFlatGroup _
  have silent := wellFormed.silentOver_render guarded (by decide)
  simp [counterEdges, Reader.occurrences_of_silent silent]

/-- Numbers stand behind captions. -/
theorem WellFormed.swapsNumbers_render (wellFormed : paper.WellFormed) :
    swapsNumbers paper.render = false := by
  have silent : (controlWord (· == "swapnumbers".toList)).SilentOver paper.render [] := by
    apply wellFormed.silentOver_render (Reader.guarded_controlWord _)
    decide
  rw [swapsNumbers, Reader.occursIn, Reader.find?_of_silent silent]
  rfl

end Silence

section Comments

/-- A group of another name does not name the comment environment. -/
theorem dropLiteral?_nameGroup {name : Text} (word : IsWord name)
    (visible : name ≠ "comment".toList) (rest : Text) :
    Text.dropLiteral? Comment.nameGroup (group name ++ rest).trimStart = none := by
  have start : (group name ++ rest).trimStart = '{' :: (name ++ '}' :: rest) := by
    rw [group, List.cons_append, List.append_assoc]
    rfl
  have spelled : Comment.nameGroup = '{' :: ("comment".toList ++ ['}']) := by decide
  cases dropped : Text.dropLiteral? Comment.nameGroup (group name ++ rest).trimStart with
  | none => rfl
  | some tail =>
    have whole := Text.dropLiteral?_eq_some_iff.1 dropped
    rw [start, spelled, List.cons_append, List.append_assoc] at whole
    have closed : '}' ∉ name :=
      fun mem => ne_of_isAlphanum (word.isAlphanum _ mem) '}' (by decide) rfl
    have same := Text.append_stop_inj closed (by decide) (List.cons.inj whole).2
    exact absurd same.1 visible

/-- No comment environment starts at a command of an admitted paper. -/
theorem WellFormed.read_block {paper : Paper} (wellFormed : paper.WellFormed)
    {command : CommandText} (mem : command ∈ paper.commands) {rest : Text}
    (starts : rest.AtCommand) : Comment.block.read (command.text ++ rest) = none := by
  have opening : (Comment.tag .opening).read (command.text ++ rest) = none := by
    have read := (wellFormed.simple command mem).proper.controlWord_read
      (fun word => word == Environment.End.opening.word) starts
    by_cases isTag : command.word = Environment.End.opening.word
    · obtain ⟨name, known, after, named⟩ := wellFormed.exists_name mem isTag
      obtain ⟨word, visible, -⟩ := wellFormed.environment name known
      have undropped := dropLiteral?_nameGroup word visible (after ++ rest)
      rw [← List.append_assoc, ← named] at undropped
      simp [Comment.tag, Reader.andThen, read, isTag, undropped]
    · simp [Comment.tag, Reader.andThen, read, isTag]
  simp [Comment.block, Reader.andThen, opening]

/-- No comment is removed. -/
theorem WellFormed.strip_render {paper : Paper} (wellFormed : paper.WellFormed) :
    Comment.strip paper.render = paper.render := by
  have code : Comment.stripLines paper.render = paper.render := by
    apply Comment.stripLines_of_not_mem
    rw [render_eq_row]
    intro mem
    obtain ⟨command, inCommands, inText⟩ := List.mem_flatMap.1 mem
    exact (wellFormed.simple command inCommands).percent_not_mem inText
  have guarded : Comment.block.Guarded fun word => word == Environment.End.opening.word := by
    intro text unread
    simp only [Comment.block, Comment.tag, Reader.andThen, unread, Option.bind_eq_bind,
      Option.bind_none]
  have silent : Comment.block.SilentOver paper.render [] := by
    rw [render_eq_row]
    apply guarded.readsCommands.silentOver_row
    · exact fun command mem => (wellFormed.simple command mem).proper
    · exact Text.atCommand_nil
    · exact fun command mem rest starts => wellFormed.read_block mem starts
  rw [Comment.strip, code, Reader.replaceAll_of_silent _ silent]

end Comments

section Delimiters

/-- Every tag of an admitted paper is in its literal spelling. -/
theorem WellFormed.literalDelimiters_render {paper : Paper} (wellFormed : paper.WellFormed) :
    Environment.literalDelimiters paper.render = paper.render := by
  have guarded : Environment.delimiter.Guarded fun word =>
      (Environment.End.ofWord? word).isSome := by
    apply Reader.Guarded.thenFlatGroup
    exact Reader.guarded_controlWord _
  rw [Environment.literalDelimiters, render_eq_row]
  apply guarded.readsCommands.replaceAll_row
  · exact fun command mem => (wellFormed.simple command mem).proper
  intro command mem rest starts
  have simple := wellFormed.simple command mem
  have read := simple.proper.controlWord_read
    (fun word => (Environment.End.ofWord? word).isSome) starts
  cases isEnd : Environment.End.ofWord? command.word with
  | none =>
    left
    simp [Environment.delimiter, Reader.thenFlatGroup, Reader.andThen, read, isEnd]
  | some part =>
    right
    have isTag : command.word = part.word := Environment.End.ofWord?_eq_some_iff.1 isEnd
    obtain ⟨name, known, after, named⟩ := wellFormed.exists_name mem isTag
    obtain ⟨word, -⟩ := wellFormed.environment name known
    have grouped : flatGroup? (command.after ++ rest) = some (name, after ++ rest) := by
      have plain := flatGroup?_plain (after ++ rest) word.isAlphanum
      rw [named, group]
      simpa using plain
    have trimmed := Text.trim_of_isAlphanum word.isAlphanum
    refine ⟨⟨part, name⟩, after, ?_, ?_, ?_⟩
    · simp [Environment.delimiter, Reader.thenFlatGroup, Reader.andThen, read, isEnd, grouped,
        trimmed]
    · intro inAfter
      refine simple.proper.single ?_
      rw [named]
      exact List.mem_append_right _ inAfter
    · exact (text_eq_tag isTag named).symm

end Delimiters

section Declarations

variable {paper : Paper} {kind : Kind}

/-- The command of a kind is read with its star and its arguments. -/
theorem WellFormed.commandAfter_command (wellFormed : paper.WellFormed)
    (declared : kind ∈ paper.kinds) (rest : Text) :
    Declaration.commandAfter "newtheorem".toList (kind.command.after ++ rest) =
      ⟨"newtheorem".toList, kind.numbering == .starred, kind.arguments ++ '\n' :: rest⟩ := by
  obtain ⟨starts, -⟩ := wellFormed.arguments declared
  cases spelled : kind.arguments with
  | nil =>
    rw [spelled] at starts
    cases starts
  | cons brace more =>
    rw [spelled] at starts
    cases starts
    unfold Kind.command Kind.star
    rw [spelled]
    cases kind.numbering <;> simp [Declaration.commandAfter, endsControlWord, isControlLetter]

/-- The arguments of a kind are read as its declaration. -/
theorem WellFormed.readPositional?_arguments (wellFormed : paper.WellFormed)
    (declared : kind ∈ paper.kinds) {rest : Text} (starts : rest.AtCommand) :
    Declaration.readPositional? (kind.numbering == .starred) (kind.arguments ++ '\n' :: rest) =
      some kind.declaration := by
  have name := (wellFormed.names kind declared).1.isAlphanum
  have caption := (wellFormed.captions kind declared).isAlphanum
  have captioned := (wellFormed.captions kind declared).1
  have last : Group.bracketed? ('\n' :: rest) = none := by
    apply Group.group?_eq_none
    show rest.trimStart.head? ≠ some '['
    have sharp : rest.trimStart = rest := by
      apply Text.trimStart_eq_self
      intro first isFirst
      rw [starts first isFirst]
      decide
    rw [sharp]
    intro isBracket
    exact absurd (starts _ isBracket) (by decide)
  unfold Kind.arguments Kind.declaration Kind.shared? Kind.parent?
  cases numbering : kind.numbering with
  | plain =>
    have read := Declaration.readPositional?_plain false name caption captioned last
    have numbered : (Numbering.plain == .starred) = false := rfl
    simpa [group, numbered] using read
  | starred =>
    have read := Declaration.readPositional?_plain true name caption captioned last
    simpa [group] using read
  | shared other =>
    obtain ⟨owner, isOwner, rfl⟩ := wellFormed.exists_owner declared numbering
    have word := (wellFormed.names owner isOwner).1
    have read := Declaration.readPositional?_shared ('\n' :: rest) false name caption captioned
      word.isAlphanum word.1
    have numbered : (Numbering.shared owner.name == .starred) = false := rfl
    simpa [group, bracket, numbered] using read
  | within level =>
    have counted : level.counter ≠ [] := by cases level <;> decide
    have counter : ∀ c ∈ level.counter, c.isAlphanum = true :=
      fun c mem => isAlphanum_of_isAlpha (isAlpha_counter level c mem)
    have read := Declaration.readPositional?_within ('\n' :: rest) false name caption captioned
      counter counted
    have numbered : (Numbering.within level == .starred) = false := rfl
    simpa [group, bracket, numbered] using read

/-- The declarations that commands in a text make. -/
abbrev declared (text : Text) : List Declaration :=
  (Declaration.command.occurrences text).flatMap fun found => Declaration.ofCommand found.value

/-- The command of a kind declares it. -/
theorem WellFormed.declared_command (wellFormed : paper.WellFormed) (mem : kind ∈ paper.kinds)
    {rest : Text} (starts : rest.AtCommand) :
    declared (kind.command.text ++ rest) = kind.declaration :: declared rest := by
  have simple := wellFormed.simple_kind mem
  have word := simple.proper.controlWord_read Declaration.words.contains starts
  have accepted : Declaration.words.contains kind.command.word = true := by
    show Declaration.words.contains "newtheorem".toList = true
    decide
  have command := wellFormed.commandAfter_command mem rest
  obtain ⟨brace, -⟩ := wellFormed.arguments mem
  cases spelled : kind.arguments with
  | nil =>
    rw [spelled] at brace
    cases brace
  | cons first more =>
    have read : Declaration.command.read (kind.command.text ++ rest) =
        some (⟨"newtheorem".toList, kind.numbering == .starred, kind.arguments ++ '\n' :: rest⟩,
          (more ++ ['\n']) ++ rest) := by
      rw [accepted, if_pos rfl] at word
      have named : kind.command.word = "newtheorem".toList := rfl
      simp only [Declaration.command, Reader.andThen, word, named, command,
        Option.bind_eq_bind, Option.bind_some]
      simp [spelled]
    have single : '\\' ∉ more ++ ['\n'] := by
      intro inMore
      refine simple.proper.single ?_
      have whole : '\\' ∈ kind.arguments ++ ['\n'] := by
        rw [spelled, List.cons_append]
        exact List.mem_cons_of_mem _ inMore
      exact List.mem_append_right _ whole
    have unkeyed : "newtheorem".toList ≠ "declaretheorem".toList := by decide
    have unframed : "newtheorem".toList ≠ "newmdtheoremenv".toList := by decide
    have declares : Declaration.ofCommand
        ⟨"newtheorem".toList, kind.numbering == .starred, kind.arguments ++ '\n' :: rest⟩ =
          [kind.declaration] :=
      Declaration.ofCommand_positional unkeyed unframed
        (wellFormed.readPositional?_arguments mem starts)
    rw [declared, Declaration.guarded_command.readsCommands.occurrences_text single read,
      List.flatMap_cons, declares]
    rfl

/-- The document environment of a paper declares nothing. -/
theorem WellFormed.declared_body (wellFormed : paper.WellFormed) :
    declared (CommandText.row paper.body) = [] := by
  have others : ∀ word ∈ bodyWords, Declaration.words.contains word = false := by decide
  have silent : Declaration.command.SilentOver (CommandText.row paper.body) [] := by
    apply Declaration.guarded_command.silentOver_row
    · exact fun command mem => (wellFormed.simple_body command mem).proper
    · exact Text.atCommand_nil
    · exact fun command mem => others _ (paper.word_mem_bodyWords command mem)
  rw [declared, Reader.occurrences_of_silent silent, List.flatMap_nil]

/-- The source of a paper declares its kinds, in order. -/
theorem WellFormed.declared_render (wellFormed : paper.WellFormed) :
    declared paper.render = paper.declarations := by
  have kinds : ∀ kinds : List Kind, (∀ kind ∈ kinds, kind ∈ paper.kinds) →
      declared (CommandText.row (kinds.map Kind.command) ++ CommandText.row paper.body) =
        kinds.map Kind.declaration := by
    intro kinds
    induction kinds with
    | nil => exact fun _ => wellFormed.declared_body
    | cons kind more ih =>
      intro known
      rw [List.forall_mem_cons] at known
      have starts : (CommandText.row paper.body).AtCommand := Text.atCommand_backslash _
      rw [List.map_cons, CommandText.row_cons, List.append_assoc,
        wellFormed.declared_command known.1 (CommandText.atCommand_row _ starts), ih known.2,
        List.map_cons]
  rw [render_eq_row, commands, CommandText.row_append]
  exact kinds paper.kinds fun _ mem => mem

/-- The declaration of an admitted kind is regular. -/
theorem WellFormed.regular (wellFormed : paper.WellFormed) :
    ∀ declaration ∈ paper.declarations, declaration.Regular := by
  intro declaration mem
  obtain ⟨kind, known, rfl⟩ := List.mem_map.1 mem
  have word := (wellFormed.names kind known).1
  refine ⟨word.1, ?_, ?_⟩
  · intro canonical
    have letter := word.2 '@'
    rw [show kind.name = canonicalEnvironment from canonical] at letter
    exact absurd (letter (by decide)) (by decide)
  · unfold Kind.declaration Kind.shared? Kind.parent?
    cases kind.numbering <;> simp

/-- The declarations of the source are entered without a warning. -/
theorem WellFormed.collect_render (wellFormed : paper.WellFormed) :
    DeclarationTable.collect NameMap.empty paper.render = (wellFormed.table, []) := by
  have distinct : (paper.declarations.map Declaration.name).Nodup := by
    rw [names_declarations]
    exact wellFormed.distinct
  have fresh : ∀ declaration ∈ paper.declarations,
      declaration.name ∉ (NameMap.empty : DeclarationTable).keys :=
    fun declaration _ inEmpty => nomatch inEmpty
  obtain ⟨silent, entries⟩ :=
    DeclarationTable.declareAll_of_fresh wellFormed.regular distinct fresh
  have found := wellFormed.declared_render
  have table : (DeclarationTable.declareAll NameMap.empty paper.declarations).1 =
      wellFormed.table := NameMap.eq_of_entries entries
  rw [DeclarationTable.collect]
  show DeclarationTable.declareAll NameMap.empty (declared paper.render) = _
  rw [found]
  exact Prod.ext table silent

end Declarations

/-- Normalizing the source of an admitted paper leaves it as it is and collects its declarations,
without a warning. -/
theorem WellFormed.ofText_render {paper : Paper} (wellFormed : paper.WellFormed) :
    Document.ofText paper.render = wellFormed.document := by
  simp only [Document.ofText, wellFormed.strip_render, wellFormed.expand_render,
    wellFormed.aliases_render, wellFormed.collect_render, DeclarationTable.applyAliases_empty,
    wellFormed.resolveWrappers_render, wellFormed.literalDelimiters_render,
    wellFormed.counterEdges_render, wellFormed.swapsNumbers_render, List.map_nil, List.append_nil,
    WellFormed.document]

/-- Normalizing the source of an admitted paper ends. -/
theorem WellFormed.ends_render {paper : Paper} (wellFormed : paper.WellFormed) :
    Document.ends paper.render = true := by
  simp [Document.ends, Document.expansions, wellFormed.strip_render, wellFormed.expand_render,
    wellFormed.expansions_render, MacroTable.expand?_empty_isSome]

end Paper
end TexStatements
