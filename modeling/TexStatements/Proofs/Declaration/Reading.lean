import TexStatements.Declaration.Wrapper
import TexStatements.Proofs.NameMap
import TexStatements.Proofs.Text.Commands
import TexStatements.Proofs.Text.Plain

/-!
# Reading plain declarations

Declarations whose names, counters and captions are nonempty texts of letters and digits are read
as they are written, and a table enters those of new names as they are, in order.
-/
namespace TexStatements

namespace Declaration

/-- A declaration that is in no way out of the ordinary: it has a name other than the canonical
one, and not both a shared counter and a parent. -/
structure Regular (declaration : Declaration) : Prop where
  /-- There is a name. -/
  named : declaration.name ≠ []
  /-- It is not the canonical one. -/
  ordinary : declaration.name ≠ canonicalEnvironment
  /-- A shared counter excludes a parent. -/
  single : declaration.shared? = none ∨ declaration.within? = none

section Positional

variable {name caption counter : Text}

/-- Text that starts with a brace is behind no overlay specification. -/
theorem skipOverlay_group (tail : Text) : skipOverlay ('{' :: tail) = '{' :: tail := rfl

/-- A plain caption is kept. -/
theorem new_of_caption (name : Text) (starred : Bool)
    (plain : ∀ c ∈ caption, c.isAlphanum = true) (nonempty : caption ≠ []) :
    new name caption starred = ⟨name, caption, starred, none, none⟩ := by
  have kept := Text.nonBlank?_eq_some (Text.trim_of_isAlphanum plain) nonempty
  simp [new, kept]

/-- A bracket group does not start with a brace. -/
theorem bracketed?_brace (tail : Text) : Group.bracketed? ('{' :: tail) = none :=
  Group.group?_eq_none (by
    show ('{' :: tail).head? ≠ some '['
    simp)

/-- A declaration with nothing but name and caption. -/
theorem readPositional?_plain {rest : Text} (starred : Bool)
    (namePlain : ∀ c ∈ name, c.isAlphanum = true)
    (captionPlain : ∀ c ∈ caption, c.isAlphanum = true) (captioned : caption ≠ [])
    (last : Group.bracketed? rest = none) :
    readPositional? starred ('{' :: (name ++ '}' :: '{' :: (caption ++ '}' :: rest))) =
      some ⟨name, caption, starred, none, none⟩ := by
  simp [readPositional?, skipOverlay_group, Group.group?_plain .braces _ namePlain,
    bracketed?_brace, Group.group?_plain .braces _ captionPlain, last,
    Text.trim_of_isAlphanum namePlain, new_of_caption name starred captionPlain captioned]

/-- A declaration with a parent. -/
theorem readPositional?_within (rest : Text) (starred : Bool)
    (namePlain : ∀ c ∈ name, c.isAlphanum = true)
    (captionPlain : ∀ c ∈ caption, c.isAlphanum = true) (captioned : caption ≠ [])
    (counterPlain : ∀ c ∈ counter, c.isAlphanum = true) (counted : counter ≠ []) :
    readPositional? starred ('{' :: (name ++ '}' :: '{' :: (caption ++ '}' :: '[' ::
      (counter ++ ']' :: rest)))) = some ⟨name, caption, starred, none, some counter⟩ := by
  have kept := Text.nonBlank?_eq_some (Text.trim_of_isAlphanum counterPlain) counted
  simp [readPositional?, skipOverlay_group, Group.group?_plain .braces _ namePlain,
    bracketed?_brace, Group.group?_plain .braces _ captionPlain,
    Group.group?_plain .brackets _ counterPlain, kept,
    Text.trim_of_isAlphanum namePlain, new_of_caption name starred captionPlain captioned]

/-- A declaration with a shared counter. -/
theorem readPositional?_shared (rest : Text) (starred : Bool)
    (namePlain : ∀ c ∈ name, c.isAlphanum = true)
    (captionPlain : ∀ c ∈ caption, c.isAlphanum = true) (captioned : caption ≠ [])
    (counterPlain : ∀ c ∈ counter, c.isAlphanum = true) (counted : counter ≠ []) :
    readPositional? starred ('{' :: (name ++ '}' :: '[' :: (counter ++ ']' :: '{' ::
      (caption ++ '}' :: rest)))) = some ⟨name, caption, starred, some counter, none⟩ := by
  have kept := Text.nonBlank?_eq_some (Text.trim_of_isAlphanum counterPlain) counted
  simp [readPositional?, skipOverlay_group, Group.group?_plain .braces _ namePlain,
    Group.group?_plain .brackets _ counterPlain, kept, Group.group?_plain .braces _ captionPlain,
    Text.trim_of_isAlphanum namePlain, new_of_caption name starred captionPlain captioned]

/-- A command that takes neither options nor a frame makes one declaration, which it reads by
position. -/
theorem ofCommand_positional {found : Command} {declaration : Declaration}
    (unkeyed : found.word ≠ "declaretheorem".toList)
    (unframed : found.word ≠ "newmdtheoremenv".toList)
    (read : readPositional? found.starred found.after = some declaration) :
    ofCommand found = [declaration] := by
  rw [ofCommand, read?, if_neg unkeyed, if_neg unframed, read]
  rfl

/-- The command with options makes the declarations that it reads from them. -/
theorem ofCommand_keyed {found : Command} {declarations : List Declaration}
    (keyed : found.word = "declaretheorem".toList)
    (read : readKeyed? found.starred found.after = some declarations) :
    ofCommand found = declarations := by
  rw [ofCommand, read?, if_pos keyed, read]
  rfl

end Positional

section Command

/-- Declaring commands are guarded by their control words. -/
theorem guarded_command : command.Guarded words.contains := by
  intro text unread
  simp only [command, Reader.andThen, unread, Option.bind_eq_bind, Option.bind_none]

/-- A text of one declaring command has the declarations of that command. -/
theorem occurrences_command {command : CommandText} (proper : command.Proper)
    (declares : words.contains command.word = true) :
    (Declaration.command.occurrences command.text).map (·.value) =
      [commandAfter command.word command.after] := by
  have word := proper.controlWord_read words.contains Text.atCommand_nil
  rw [declares, if_pos rfl, List.append_nil, List.append_nil] at word
  let behind := (commandAfter command.word command.after).after.drop 1
  have read : Declaration.command.read (command.text ++ []) =
      some (commandAfter command.word command.after, behind ++ []) := by
    simp only [Declaration.command, Reader.andThen, List.append_nil, word, Option.bind_eq_bind,
      Option.bind_some, behind]
  have single : '\\' ∉ behind := fun mem => proper.single
    (((List.drop_suffix 1 _).trans (commandAfter_suffix _ _)).subset mem)
  have found := guarded_command.readsCommands.occurrences_text single read
  rw [List.append_nil] at found
  rw [found, Reader.occurrences]
  rfl

end Command

end Declaration

namespace DeclarationTable

/-- A regular declaration of a new name is entered at the end, without a warning. -/
theorem declare_of_fresh {table : DeclarationTable} {declaration : Declaration}
    (regular : declaration.Regular) (fresh : declaration.name ∉ table.keys) :
    table.declare declaration = (NameMap.insert table declaration.name declaration, []) := by
  have absent : NameMap.contains table declaration.name = false := by
    rw [Bool.eq_false_iff, ne_eq, NameMap.contains_iff]
    exact fresh
  have named : declaration.name.isEmpty = false := by
    simpa using regular.named
  have ordinary : (declaration.name == canonicalEnvironment) = false :=
    beq_eq_false_iff_ne.2 regular.ordinary
  have single : (declaration.shared?.isSome && declaration.within?.isSome) = false := by
    rcases regular.single with none | none <;> simp [none]
  simp [declare, named, ordinary, absent, single]

/-- One declaration alone. -/
theorem declareAll_singleton (table : DeclarationTable) (declaration : Declaration) :
    table.declareAll [declaration] = table.declare declaration := by
  simp [declareAll]

/-- Regular declarations of new and distinct names are entered in order, without a warning. -/
theorem declareAll_of_fresh {table : DeclarationTable} {declarations : List Declaration}
    (regular : ∀ declaration ∈ declarations, declaration.Regular)
    (distinct : (declarations.map Declaration.name).Nodup)
    (fresh : ∀ declaration ∈ declarations, declaration.name ∉ table.keys) :
    (table.declareAll declarations).2 = [] ∧ (table.declareAll declarations).1.entries =
      table.entries ++ declarations.map fun declaration => (declaration.name, declaration) := by
  induction declarations generalizing table with
  | nil => simp [declareAll]
  | cons declaration more ih =>
    rw [List.map_cons, List.nodup_cons] at distinct
    have new := fresh declaration (List.mem_cons_self ..)
    have entered := declare_of_fresh (regular declaration (List.mem_cons_self ..)) new
    have later : ∀ other ∈ more,
        other.name ∉ (NameMap.insert table declaration.name declaration).keys := by
      intro other mem
      rw [NameMap.keys_insert, if_neg new, List.mem_append, not_or, List.mem_singleton]
      refine ⟨fresh other (List.mem_cons_of_mem _ mem), fun same => distinct.1 ?_⟩
      rw [← same]
      exact List.mem_map_of_mem mem
    obtain ⟨silent, entries⟩ := ih
      (fun other mem => regular other (List.mem_cons_of_mem _ mem)) distinct.2 later
    have first : (NameMap.insert table declaration.name declaration).entries =
        table.entries ++ [(declaration.name, declaration)] :=
      NameMap.put_of_not_mem declaration new
    constructor
    · simp [declareAll, entered, silent]
    · simp [declareAll, entered, entries, first]

/-- Without aliases a table stays as it is. -/
theorem applyAliases_empty (table : DeclarationTable) :
    table.applyAliases NameMap.empty = table := rfl

/-- Nothing is removed from a text without environment definitions. -/
theorem resolveWrappers_of_silent (table : DeclarationTable) {text : Text}
    (silent : (keyword Wrapper.words.contains).SilentOver text []) :
    table.resolveWrappers text = (text, table, []) := by
  simp [resolveWrappers, Reader.occurrences_of_silent silent]

end DeclarationTable

/-- A text without alias definitions has no aliases. -/
theorem AliasMap.collect_of_silent {text : Text} (silent : aliasPair.SilentOver text []) :
    AliasMap.collect text = NameMap.empty := by
  simp [AliasMap.collect, Reader.occurrences_of_silent silent, NameMap.ofList]

end TexStatements
