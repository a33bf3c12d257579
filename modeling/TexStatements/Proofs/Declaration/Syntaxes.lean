import TexStatements.Proofs.Declaration.Options
import TexStatements.Proofs.Declaration.Table
import TexStatements.Proofs.Paper.Basic
import TexStatements.Proofs.Text.Lines

/-!
# The two syntaxes of declarations

An environment is declared by position or by options. The first syntax is read group by group; in
the second the options are divided at commas, each at its equals sign, and the braces around the
caption are dropped. A caption with balanced braces comes out the same whatever it contains, because
all of it stands in those braces (`keyValues_caption`), and so do the counters: both syntaxes make
the same declaration, and a table enters it in the same way (`syntaxes_agree`).
-/
namespace TexStatements

open Paper (group bracket)
open Text

namespace Declaration

/-- The delimiters of groups, control sequences and names in a row. -/
def delimiters : List Char := ['{', '}', '[', ']', '\\', ',']

/-- A name that either syntax keeps as it is: there is one, without blanks around it and without
delimiters in it. -/
structure PlainName (name : Text) : Prop where
  /-- There is a name. -/
  nonempty : name ≠ []
  /-- No blanks are around it. -/
  trimmed : name.trim = name
  /-- It has no delimiters. -/
  plain : ∀ c ∈ name, c ∉ delimiters

/-- How the statements of an environment are numbered, as both syntaxes can say it. -/
inductive CounterChoice where
  /-- By the counter of another environment. -/
  | shared (counter : Text)
  /-- By a counter that another one resets. -/
  | within (counter : Text)
  /-- Not at all. -/
  | unnumbered

namespace CounterChoice

/-- The declaration of an environment by position. -/
def positional (name caption : Text) : CounterChoice → Text
  | shared counter => "\\newtheorem".toList ++ group name ++ bracket counter ++ group caption
  | within counter => "\\newtheorem".toList ++ group name ++ group caption ++ bracket counter
  | unnumbered => "\\newtheorem*".toList ++ group name ++ group caption

/-- The option that says how statements are numbered. -/
def option : CounterChoice → Text
  | shared counter => "sibling=".toList ++ counter
  | within counter => "numberwithin=".toList ++ counter
  | unnumbered => "numbered=no".toList

/-- The declaration of an environment by options. -/
def keyed (name caption : Text) (choice : CounterChoice) : Text :=
  "\\declaretheorem".toList ++ bracket (choice.option ++ ", name=".toList ++ group caption) ++
    group name

/-- The caption that an environment is declared with: without the blanks around it, and the default
one if nothing is left of it. -/
def captionOf (name caption : Text) : Text :=
  if caption.trim = [] then defaultCaption name else caption.trim

/-- The declaration that is made. -/
def declaration (name caption : Text) : CounterChoice → Declaration
  | shared counter => ⟨name, captionOf name caption, false, some counter, none⟩
  | within counter => ⟨name, captionOf name caption, false, none, some counter⟩
  | unnumbered => ⟨name, captionOf name caption, true, none, none⟩

/-- The declaration is of the name. -/
theorem name_declaration (name caption : Text) (choice : CounterChoice) :
    (choice.declaration name caption).name = name := by
  cases choice <;> rfl

/-- The declaration has at most one counter. -/
theorem regular_declaration {name : Text} (caption : Text) (choice : CounterChoice)
    (named : name ≠ []) (ordinary : name ≠ canonicalEnvironment) :
    (choice.declaration name caption).Regular := by
  rw [← choice.name_declaration name caption] at named ordinary
  refine ⟨named, ordinary, ?_⟩
  cases choice
  case shared => exact .inr rfl
  case within => exact .inl rfl
  case unnumbered => exact .inl rfl

/-- The counter that is named, if one is, is a plain name without an equals sign. -/
def Plain : CounterChoice → Prop
  | shared counter => PlainName counter ∧ '=' ∉ counter
  | within counter => PlainName counter ∧ '=' ∉ counter
  | unnumbered => True

end CounterChoice

variable {name caption counter inner : Text}

section Groups

/-- A plain name has none of the delimiters. -/
theorem PlainName.ne (named : PlainName name) {c : Char} (mem : c ∈ name) :
    c ≠ '{' ∧ c ≠ '}' ∧ c ≠ '[' ∧ c ≠ ']' ∧ c ≠ '\\' ∧ c ≠ ',' := by
  have plain := named.plain c mem
  simpa [delimiters, not_or] using plain

/-- A plain name has no backslash. -/
theorem PlainName.backslash_not_mem (named : PlainName name) : '\\' ∉ name :=
  fun mem => (named.ne mem).2.2.2.2.1 rfl

/-- What means something inside a group is a delimiter. -/
theorem special_subset (group : Group.Delimiters) : ∀ c ∈ group.special, c ∈ delimiters := by
  cases group <;> decide

/-- A plain name may stand inside a group. -/
theorem PlainName.inside (named : PlainName name) (group : Group.Delimiters) : group.Inside name :=
  group.inside_of_forall fun c mem special => named.plain c mem (special_subset group c special)

/-- A plain name is left when blanks are cut off. -/
theorem PlainName.nonBlank? (named : PlainName name) : name.nonBlank? = some name :=
  nonBlank?_eq_some named.trimmed named.nonempty

/-- A text in braces is read as a group. -/
theorem braced?_group (inside : Group.BraceInside inner) (rest : Text) :
    Group.braced? (group inner ++ rest) = some (inner, rest) := by
  rw [group, List.cons_append, List.append_assoc]
  exact Group.group?_inside .braces rest inside

/-- A text in brackets is read as a group. -/
theorem bracketed?_bracket (inside : Group.BracketInside inner) (rest : Text) :
    Group.bracketed? (bracket inner ++ rest) = some (inner, rest) := by
  rw [bracket, List.cons_append, List.append_assoc]
  exact Group.group?_inside .brackets rest inside

/-- A text in braces is no bracket group. -/
theorem bracketed?_group (inner rest : Text) : Group.bracketed? (group inner ++ rest) = none :=
  bracketed?_brace _

/-- A blank caption stands for the default one. -/
theorem new_eq (name caption : Text) (starred : Bool) :
    new name caption starred =
      ⟨name, CounterChoice.captionOf name caption, starred, none, none⟩ := by
  rw [new, CounterChoice.captionOf, Text.nonBlank?]
  by_cases blank : caption.trim = []
  · simp [blank]
  · simp [blank]

end Groups

section Positional

namespace CounterChoice

/-- Whether the command has a star. -/
def starred : CounterChoice → Bool
  | unnumbered => true
  | _ => false

/-- The arguments of the command. -/
def arguments (name caption : Text) : CounterChoice → Text
  | shared counter => group name ++ (bracket counter ++ group caption)
  | within counter => group name ++ (group caption ++ bracket counter)
  | unnumbered => group name ++ group caption

/-- A declaration by position is one command. -/
theorem positional_eq (name caption : Text) (choice : CounterChoice) :
    choice.positional name caption = CommandText.text ⟨"newtheorem".toList,
      (if choice.starred then ['*'] else []) ++ choice.arguments name caption⟩ := by
  have plain : "\\newtheorem".toList = '\\' :: "newtheorem".toList := rfl
  have withStar : "\\newtheorem*".toList = '\\' :: ("newtheorem".toList ++ ['*']) := rfl
  cases choice with
  | shared counter | within counter =>
    unfold positional
    rw [plain]
    simp only [CommandText.text, starred, arguments, Bool.false_eq_true, if_false, List.cons_append,
      List.append_assoc, List.nil_append]
  | unnumbered =>
    unfold positional
    rw [withStar]
    simp only [CommandText.text, starred, arguments, if_true, List.cons_append, List.append_assoc,
      List.nil_append]

/-- The arguments start with the name in braces. -/
theorem exists_arguments (name caption : Text) (choice : CounterChoice) :
    ∃ rest, choice.arguments name caption = '{' :: rest := by
  cases choice <;> exact ⟨_, rfl⟩

end CounterChoice

variable {choice : CounterChoice}

/-- The arguments have no backslash. -/
theorem CounterChoice.Plain.backslash_not_mem (plain : choice.Plain) (named : PlainName name)
    (free : '\\' ∉ caption) : '\\' ∉ choice.arguments name caption := by
  have noName := named.backslash_not_mem
  cases choice with
  | shared counter | within counter =>
    have noCounter := plain.1.backslash_not_mem
    simp [CounterChoice.arguments, group, bracket, noName, free, noCounter]
  | unnumbered => simp [CounterChoice.arguments, group, noName, free]

/-- The arguments are read as the declaration. -/
theorem readPositional?_arguments (named : PlainName name)
    (inside : Group.BraceInside caption) (plain : choice.Plain) :
    readPositional? choice.starred (choice.arguments name caption) =
      some (choice.declaration name caption) := by
  have overlay : skipOverlay (choice.arguments name caption) = choice.arguments name caption := by
    obtain ⟨rest, starts⟩ := choice.exists_arguments name caption
    rw [starts]
    exact skipOverlay_group rest
  have nothing : Group.bracketed? [] = none := rfl
  have last := braced?_group inside []
  rw [List.append_nil] at last
  rw [readPositional?, overlay]
  cases choice with
  | shared counter =>
    simp [CounterChoice.arguments, CounterChoice.starred, CounterChoice.declaration,
      braced?_group (named.inside .braces), bracketed?_bracket (plain.1.inside .brackets),
      plain.1.nonBlank?, last, named.trimmed, new_eq]
  | within counter =>
    have closing := bracketed?_bracket (plain.1.inside .brackets) []
    rw [List.append_nil] at closing
    simp [CounterChoice.arguments, CounterChoice.starred, CounterChoice.declaration,
      braced?_group (named.inside .braces), bracketed?_group, braced?_group inside, closing,
      plain.1.nonBlank?, named.trimmed, new_eq]
  | unnumbered =>
    have between := bracketed?_group caption []
    rw [List.append_nil] at between
    simp [CounterChoice.arguments, CounterChoice.starred, CounterChoice.declaration,
      braced?_group (named.inside .braces), between, last, nothing, named.trimmed, new_eq]

/-- What a declaration by position declares. -/
theorem ofCommand_arguments (named : PlainName name) (inside : Group.BraceInside caption)
    (plain : choice.Plain) :
    ofCommand (commandAfter "newtheorem".toList
      ((if choice.starred then ['*'] else []) ++ choice.arguments name caption)) =
        [choice.declaration name caption] := by
  have command : commandAfter "newtheorem".toList
      ((if choice.starred then ['*'] else []) ++ choice.arguments name caption) =
        ⟨"newtheorem".toList, choice.starred, choice.arguments name caption⟩ := by
    obtain ⟨rest, starts⟩ := choice.exists_arguments name caption
    rw [starts]
    cases choice <;> rfl
  have unkeyed : "newtheorem".toList ≠ "declaretheorem".toList := by decide
  have unframed : "newtheorem".toList ≠ "newmdtheoremenv".toList := by decide
  rw [command]
  exact ofCommand_positional unkeyed unframed (readPositional?_arguments named inside plain)

end Positional

section Keyed

variable {choice : CounterChoice} {depth behind : Nat} {front rest option : Text}
  {more : List Text}

/-- Text without commas and braces belongs to the option that goes on behind it. -/
theorem splitOptions_of_free (free : ∀ c ∈ front, c ≠ ',' ∧ c ≠ '{' ∧ c ≠ '}')
    (split : splitOptions depth rest = option :: more) :
    splitOptions depth (front ++ rest) = (front ++ option) :: more := by
  induction front with
  | nil => exact split
  | cons first front ih =>
    rw [List.forall_mem_cons] at free
    obtain ⟨⟨noComma, noOpening, noClosing⟩, later⟩ := free
    have same : depthBehind depth first = depth := by
      rw [depthBehind, if_neg noOpening, if_neg noClosing]
    refine splitOptions_cons (fun ends => noComma ends.1) ?_
    rw [same]
    exact ih later

/-- So does what stands in braces, with whatever commas it has. -/
theorem splitOptions_inside (counted : openBraces depth front = some behind)
    (split : splitOptions (behind + 1) rest = option :: more) :
    splitOptions (depth + 1) (front ++ rest) = (front ++ option) :: more := by
  induction front generalizing depth with
  | nil =>
    rw [Option.some.inj counted]
    exact split
  | cons first front ih =>
    have next := openBraces_cons counted front
    -- With the outer brace open the depth is never zero, so that no comma divides.
    have deeper : depthBehind (depth + 1) first = depthBehind depth first + 1 := by
      by_cases opening : first = '{'
      · simp [depthBehind, opening]
      · by_cases closing : first = '}'
        · subst closing
          cases depth with
          | zero => cases counted
          | succ depth => rfl
        · simp [depthBehind, opening, closing]
    refine splitOptions_cons (fun ends => Nat.succ_ne_zero depth ends.2) ?_
    rw [deeper]
    exact ih (next ▸ counted)

/-- A caption in braces belongs to one option as a whole. -/
theorem splitOptions_group (balanced : caption.Balanced) :
    splitOptions 0 (group caption) = [group caption] := by
  have closing : splitOptions 1 ['}'] = [['}']] := rfl
  exact splitOptions_cons (by simp) (splitOptions_inside balanced closing)

/-- An option is read up to its first equals sign and from there. -/
theorem keyValue?_of_not_mem {key : Text} (free : '=' ∉ key) (named : key.trim ≠ [])
    (value : Text) :
    keyValue? (key ++ '=' :: value) = some (key.trim, (dropOuterBraces value.trim).trim) := by
  rw [keyValue?_eq_some_iff, writtenKey, writtenValue, cut?_of_not_mem free]
  exact ⟨rfl, named, rfl⟩

/-- The caption in an option list is the one in the braces, without the blanks around it. -/
theorem keyValues_caption {first : Text} (free : ∀ c ∈ first, c ≠ ',' ∧ c ≠ '{' ∧ c ≠ '}')
    (balanced : caption.Balanced) :
    keyValues (first ++ ", name=".toList ++ group caption) =
      (keyValue? first).toList ++ [("name".toList, caption.trim)] := by
  have front : ∀ c ∈ " name=".toList, c ≠ ',' ∧ c ≠ '{' ∧ c ≠ '}' := by decide
  have second := splitOptions_of_free front (splitOptions_group balanced)
  have last : splitOptions 0 (',' :: (" name=".toList ++ group caption)) =
      [] :: [" name=".toList ++ group caption] := by
    rw [splitOptions_comma]
    exact congrArg (List.cons []) second
  have whole := splitOptions_of_free free last
  rw [List.append_nil] at whole
  have trimmed : (group caption).trim = group caption := by
    apply trim_eq_self
    · rintro _ ⟨⟩
      decide
    · intro last isLast
      have brace : (group caption).getLast? = some '}' :=
        List.getLast?_eq_some_iff.2 ⟨'{' :: caption, rfl⟩
      rw [Option.some.inj (brace.symm.trans isLast).symm]
      decide
  have named : keyValue? (" name=".toList ++ group caption) =
      some ("name".toList, caption.trim) := by
    have noEquals : '=' ∉ " name".toList := by decide
    have isName : Text.trim " name".toList = "name".toList := by decide
    have read := keyValue?_of_not_mem noEquals (by rw [isName]; decide) (group caption)
    rw [isName, trimmed, group, dropOuterBraces_group] at read
    exact read
  have same : first ++ ", name=".toList ++ group caption =
      first ++ ',' :: (" name=".toList ++ group caption) := by simp
  rw [same, keyValues, whole, List.filterMap_cons, List.filterMap_cons, named,
    List.filterMap_nil]
  cases keyValue? first <;> rfl

namespace CounterChoice

/-- The key and the value of the option that says how statements are numbered. -/
def pair : CounterChoice → Text × Text
  | shared counter => ("sibling".toList, counter)
  | within counter => ("numberwithin".toList, counter)
  | unnumbered => ("numbered".toList, "no".toList)

/-- The options of a declaration. -/
def options (caption : Text) (choice : CounterChoice) : Text :=
  choice.option ++ ", name=".toList ++ group caption

/-- A declaration by options is one command. -/
theorem keyed_eq (name caption : Text) (choice : CounterChoice) :
    choice.keyed name caption = CommandText.text ⟨"declaretheorem".toList,
      bracket (choice.options caption) ++ group name⟩ := by
  have plain : "\\declaretheorem".toList = '\\' :: "declaretheorem".toList := rfl
  unfold keyed
  rw [plain]
  simp only [CommandText.text, options, List.cons_append, List.append_assoc]

end CounterChoice

/-- The option for the counter has no delimiters. -/
theorem CounterChoice.Plain.option_plain (plain : choice.Plain) :
    ∀ c ∈ choice.option, c ∉ delimiters := by
  have sibling : ∀ c ∈ "sibling=".toList, c ∉ delimiters := by decide
  have numberwithin : ∀ c ∈ "numberwithin=".toList, c ∉ delimiters := by decide
  have numbered : ∀ c ∈ "numbered=no".toList, c ∉ delimiters := by decide
  intro c mem
  cases choice with
  | shared counter => exact (List.mem_append.1 mem).elim (sibling c) (plain.1.plain c)
  | within counter => exact (List.mem_append.1 mem).elim (numberwithin c) (plain.1.plain c)
  | unnumbered => exact numbered c mem

/-- A plain name is its own value. -/
theorem PlainName.value (named : PlainName name) : (dropOuterBraces name.trim).trim = name := by
  have apart : ∀ inner, name ≠ '{' :: (inner ++ ['}']) := by
    rintro inner rfl
    exact (named.ne (List.mem_cons_self ..)).1 rfl
  rw [named.trimmed, dropOuterBraces_of_ne apart, named.trimmed]

/-- An option with a plain name as its value. -/
theorem PlainName.keyValue?_eq {key : Text} (named : PlainName counter) (free : '=' ∉ key)
    (trimmed : key.trim = key) (nonempty : key ≠ []) :
    keyValue? (key ++ '=' :: counter) = some (key, counter) := by
  have read := keyValue?_of_not_mem free (by rwa [trimmed]) counter
  rwa [trimmed, named.value] at read

/-- The option for the counter is read as it is meant. -/
theorem CounterChoice.Plain.keyValue?_option (plain : choice.Plain) :
    keyValue? choice.option = some choice.pair := by
  cases choice with
  | shared counter =>
    have divided : "sibling=".toList ++ counter = "sibling".toList ++ '=' :: counter := rfl
    have read : keyValue? ("sibling".toList ++ '=' :: counter) = some ("sibling".toList, counter) :=
      plain.1.keyValue?_eq (by decide) (by decide) (by decide)
    exact (congrArg keyValue? divided).trans read
  | within counter =>
    have divided : "numberwithin=".toList ++ counter = "numberwithin".toList ++ '=' :: counter :=
      rfl
    have read : keyValue? ("numberwithin".toList ++ '=' :: counter) =
        some ("numberwithin".toList, counter) :=
      plain.1.keyValue?_eq (by decide) (by decide) (by decide)
    exact (congrArg keyValue? divided).trans read
  | unnumbered => decide

/-- The options may stand in brackets. -/
theorem CounterChoice.Plain.bracketInside_options (plain : choice.Plain)
    (inside : Group.BraceInside caption) : Group.BracketInside (choice.options caption) := by
  have first : Group.BracketInside choice.option :=
    Group.Delimiters.brackets.inside_of_forall fun c mem special =>
      plain.option_plain c mem (special_subset .brackets c special)
  have key : Group.BracketInside ", name=".toList := .of_forall (by decide)
  exact (first.append key).append (.braces inside .empty)

/-- What the options for the counter and the caption add up to. -/
theorem add_pair (plain : choice.Plain) (options : DeclarationOptions) (caption : Text) :
    (options.add choice.pair.1 choice.pair.2).add "name".toList caption =
      match choice with
      | .shared counter => { options with shared? := some counter, caption? := some caption }
      | .within counter => { options with within? := some counter, caption? := some caption }
      | .unnumbered => { options with numbered := false, caption? := some caption } := by
  have captioned : DeclarationKey.ofText? "name".toList = some .caption := by decide
  cases choice with
  | shared counter =>
    have key : DeclarationKey.ofText? "sibling".toList = some .shared := by decide
    unfold CounterChoice.pair DeclarationOptions.add
    rw [key, captioned, plain.1.nonBlank?]
  | within counter =>
    have key : DeclarationKey.ofText? "numberwithin".toList = some .within := by decide
    unfold CounterChoice.pair DeclarationOptions.add
    rw [key, captioned, plain.1.nonBlank?]
  | unnumbered =>
    have key : DeclarationKey.ofText? "numbered".toList = some .numbered := by decide
    have denied : ("no".toList != "no".toList && "no".toList != "false".toList) = false := by decide
    unfold CounterChoice.pair DeclarationOptions.add
    rw [key, captioned, denied]

/-- The options say what is declared. -/
theorem declare_ofText (plain : choice.Plain) (balanced : caption.Balanced) (name : Text) :
    (DeclarationOptions.ofText false (choice.options caption)).declare name =
      choice.declaration name caption := by
  have free : ∀ c ∈ choice.option, c ≠ ',' ∧ c ≠ '{' ∧ c ≠ '}' := by
    intro c mem
    have apart := plain.option_plain c mem
    simp only [delimiters, List.mem_cons, not_or] at apart
    exact ⟨apart.2.2.2.2.2.1, apart.1, apart.2.1⟩
  have blank : CounterChoice.captionOf name caption.trim =
      CounterChoice.captionOf name caption := by
    rw [CounterChoice.captionOf, CounterChoice.captionOf, trim_trim]
  have read : DeclarationOptions.ofText false (choice.options caption) =
      (DeclarationOptions.add { numbered := true } choice.pair.1 choice.pair.2).add "name".toList
        caption.trim := by
    rw [DeclarationOptions.ofText, CounterChoice.options, keyValues_caption free balanced,
      plain.keyValue?_option, Option.toList_some]
    rfl
  rw [read, add_pair plain, DeclarationOptions.declare]
  cases choice <;>
    simp only [Option.getD_some, new_eq, blank, CounterChoice.declaration, Bool.not_false,
      Bool.not_true]

/-- What a declaration by options declares. -/
theorem ofCommand_options (named : PlainName name) (plain : choice.Plain)
    (inside : Group.BraceInside caption) (balanced : caption.Balanced) :
    ofCommand (commandAfter "declaretheorem".toList
      (bracket (choice.options caption) ++ group name)) = [choice.declaration name caption] := by
  have command : commandAfter "declaretheorem".toList
      (bracket (choice.options caption) ++ group name) =
        ⟨"declaretheorem".toList, false, bracket (choice.options caption) ++ group name⟩ := rfl
  have list := bracketed?_bracket (plain.bracketInside_options inside) (group name)
  have names := braced?_group (named.inside .braces) []
  rw [List.append_nil] at names
  have single : (name.fields (· == ',')).filterMap nonBlank? = [name] := by
    rw [fields_of_undivided fun c mem => by simp [(named.ne mem).2.2.2.2.2]]
    exact List.filterMap_cons_some named.nonBlank?
  have read : readKeyed? false (bracket (choice.options caption) ++ group name) =
      some [choice.declaration name caption] := by
    unfold readKeyed?
    simp only [list, names, single, Option.some_or, Option.bind_eq_bind, Option.bind_some,
      declare_ofText plain balanced, List.map_cons, List.map_nil]
  rw [command]
  exact ofCommand_keyed rfl read

end Keyed

end Declaration

namespace DeclarationTable

open Declaration

/-- A text of one command enters what the command declares. -/
theorem collect_command (table : DeclarationTable) {command : CommandText}
    (proper : command.Proper) (declares : words.contains command.word = true) :
    table.collect command.text =
      table.declareAll (ofCommand (commandAfter command.word command.after)) := by
  have found := occurrences_command proper declares
  rw [collect, ← List.flatMap_map, found, List.flatMap_singleton]

variable {name caption : Text} {choice : CounterChoice}

/-- A declaration by position is entered. -/
theorem collect_positional (table : DeclarationTable) (named : PlainName name)
    (inside : Group.BraceInside caption) (free : '\\' ∉ caption) (plain : choice.Plain) :
    table.collect (choice.positional name caption) =
      table.declareAll [choice.declaration name caption] := by
  have letters : ∀ letter ∈ "newtheorem".toList, isControlLetter letter = true := by decide
  have declares : words.contains "newtheorem".toList = true := by decide
  have star : '\\' ∉ (if choice.starred then ['*'] else []) := by
    cases choice.starred <;> decide
  have proper : CommandText.Proper ⟨"newtheorem".toList,
      (if choice.starred then ['*'] else []) ++ choice.arguments name caption⟩ := by
    refine ⟨letters, ?_, ?_⟩
    · obtain ⟨rest, starts⟩ := choice.exists_arguments name caption
      rw [starts]
      cases choice.starred <;> rintro _ ⟨⟩ <;> rfl
    · exact fun mem => (List.mem_append.1 mem).elim star (plain.backslash_not_mem named free)
  rw [CounterChoice.positional_eq, collect_command table proper declares,
    ofCommand_arguments named inside plain]

/-- A declaration by options is entered. -/
theorem collect_keyed (table : DeclarationTable) (named : PlainName name)
    (inside : Group.BraceInside caption) (balanced : caption.Balanced) (free : '\\' ∉ caption)
    (plain : choice.Plain) :
    table.collect (choice.keyed name caption) =
      table.declareAll [choice.declaration name caption] := by
  have letters : ∀ letter ∈ "declaretheorem".toList, isControlLetter letter = true := by decide
  have declares : words.contains "declaretheorem".toList = true := by decide
  have noOption : '\\' ∉ choice.option := fun mem => plain.option_plain _ mem (by decide)
  have noName := named.backslash_not_mem
  have proper : CommandText.Proper ⟨"declaretheorem".toList,
      bracket (choice.options caption) ++ group name⟩ := by
    refine ⟨letters, ?_, ?_⟩
    · rintro _ ⟨⟩
      rfl
    · intro mem
      simp [bracket, group, CounterChoice.options, noOption, free, noName] at mem
  rw [CounterChoice.keyed_eq, collect_command table proper declares,
    ofCommand_options named plain inside balanced]

/-- An environment declared by position and one declared by options, with the same name, caption and
counter, are entered in the same way and with the same warnings, whatever balanced caption it is.
If the name was not declared, the entry has just this name, the caption without the blanks around
it or the default one, and the counter; otherwise nothing is entered and the declaration is warned
of. -/
theorem syntaxes_agree (table : DeclarationTable) (named : PlainName name)
    (ordinary : name ≠ canonicalEnvironment) (balanced : caption.Balanced) (free : '\\' ∉ caption)
    (plain : choice.Plain) :
    table.collect (choice.positional name caption) = table.collect (choice.keyed name caption) ∧
    (name ∉ table.keys →
      (table.collect (choice.keyed name caption)).1.entries =
          table.entries ++ [(name, choice.declaration name caption)] ∧
        (table.collect (choice.keyed name caption)).2 = []) ∧
    (name ∈ table.keys →
      table.collect (choice.keyed name caption) = (table, [.repeatedDeclaration name])) := by
  have inside := (balanced_iff_braceInside free).1 balanced
  have regular := choice.regular_declaration caption named.nonempty ordinary
  have same := choice.name_declaration name caption
  rw [collect_positional table named inside free plain,
    collect_keyed table named inside balanced free plain, declareAll_singleton]
  refine ⟨rfl, fun fresh => ?_, fun mem => ?_⟩
  · rw [declare_of_fresh regular (by rwa [same]), same]
    exact ⟨NameMap.put_of_not_mem _ fresh, rfl⟩
  · rw [declare_of_mem ⟨regular.named, regular.ordinary⟩ (by rwa [same]), same]

/-- A caption with braces, a comma, brackets and an equals sign. -/
theorem syntaxes_agree_nested :
    (DeclarationTable.collect ∅ "\\newtheorem{thm}[lem]{{A, [b]} = {}}".toList).1.entries =
      [("thm".toList, ⟨"thm".toList, "{A, [b]} = {}".toList, false, some "lem".toList, none⟩)] ∧
    DeclarationTable.collect ∅ "\\newtheorem{thm}[lem]{{A, [b]} = {}}".toList =
      DeclarationTable.collect ∅
        "\\declaretheorem[sibling=lem, name={{A, [b]} = {}}]{thm}".toList := by
  have named : PlainName "thm".toList := ⟨by decide, by decide, by decide⟩
  have counter : PlainName "lem".toList := ⟨by decide, by decide, by decide⟩
  have plain : (CounterChoice.shared "lem".toList).Plain := ⟨counter, by decide⟩
  have balanced : Text.Balanced "{A, [b]} = {}".toList := by decide
  obtain ⟨same, fresh, -⟩ := syntaxes_agree ∅ named (by decide) balanced (by decide) plain
  exact ⟨same ▸ (fresh (by decide)).1, same⟩

end DeclarationTable
end TexStatements
