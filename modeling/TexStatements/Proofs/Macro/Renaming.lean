import TexStatements.Proofs.Macro.CompleteRow
import TexStatements.Proofs.Text.Renaming

/-!
# Renaming macros

Macros are resolved in an order that starts from their sorted names. Where no default calls a
macro, the names have no other influence: the row of tokens that a text comes to is renamed with
the macros (`Renames.completeRow`), and so is the text that it spells. Defaults are not followed by
the order of resolution, and a default that calls a macro can make the result depend on the names
(`lateDefault`).
-/
namespace TexStatements

open ControlSequence

/-- Rename the control sequences of a default. -/
def Parameter.rename (newName : Text → Text) : Parameter → Parameter
  | .required => .required
  | .optional default => .optional (Text.rename newName default)

/-- Rename a macro and the control sequences of its defaults and its body. -/
def Macro.rename (newName : Text → Text) (definition : Macro) : Macro :=
  ⟨newName definition.name, definition.parameters.map (Parameter.rename newName),
    Text.rename newName definition.body⟩

namespace Token

variable {newName : Text → Text} {row : List Token}

/-- Number signs stay where they are. -/
theorem flatMap_loosen_rename (keeps : KeepsWords newName) (row : List Token) :
    (row.map (Token.rename newName)).flatMap loosen =
      (row.flatMap loosen).map (Token.rename newName) := by
  rw [List.flatMap_map, List.map_flatMap]
  congr 1
  funext token
  cases token with
  | character c => rfl
  | sequence name =>
    by_cases sign : name = ['#']
    · have stays : newName ['#'] = ['#'] := keeps.other _ (by decide)
      subst sign
      simp [Token.rename, loosen, stays]
    · have still : newName name ≠ ['#'] := by
        by_cases word : IsWord name
        · intro same
          have noWord : ¬IsWord (['#'] : Text) := by decide
          exact noWord (same ▸ keeps.word name word)
        · rwa [keeps.other name word]
      simp [Token.rename, loosen, sign, still]

/-- The argument of a character among renamed arguments. -/
theorem argument?_rename (arity : Nat) (arguments : List (List Token)) (c : Char) :
    argument? arity (arguments.map (List.map (Token.rename newName))) c =
      (argument? arity arguments c).map (List.map (Token.rename newName)) := by
  unfold argument?
  cases Macro.argumentIndex? c with
  | none => rfl
  | some index =>
    by_cases inside : index < arity
    · simp [inside]
    · simp [inside]

/-- Arguments are put into a renamed row as into the row. -/
theorem fill_rename (newName : Text → Text) (arity : Nat) (arguments : List (List Token))
    (row : List Token) :
    fill arity (arguments.map (List.map (Token.rename newName)))
        (row.map (Token.rename newName)) =
      (fill arity arguments row).map (Token.rename newName) := by
  fun_induction fill arity arguments row with
  | case1 => rfl
  | case2 name rest ih => simp [Token.rename, fill, ih]
  | case3 rest ih => simp [Token.rename, fill, ih]
  | case4 next rest plain argument found ih =>
    simp [Token.rename, fill, ih, plain, argument?_rename, found]
  | case5 next rest plain found ih =>
    simp [Token.rename, fill, ih, plain, argument?_rename, found]
  | case6 rest other ih =>
    cases rest with
    | nil => rfl
    | cons token rest =>
      cases token with
      | character c => exact absurd rfl (other c rest)
      | sequence name =>
        simp only [List.map_cons, Token.rename] at ih ⊢
        rw [← ih]
        simp [fill]
  | case7 first rest plain ih =>
    rw [List.map_cons, List.map_cons, ← ih, Token.rename, fill.eq_def]
    simp only [if_neg plain]

end Token

namespace MacroTable

open Token Relation

/-- A table in which the control sequences of each macro, and its name, are renamed. -/
def rename (newName : Text → Text) (table : MacroTable) : MacroTable :=
  ofMacros (table.values.map (Macro.rename newName))

variable {newName : Text → Text} {table other : MacroTable} {text : Text}

/-- The argument of a renamed parameter is read from a renamed text as before. -/
theorem argument?_rename (keeps : KeepsWords newName) (parameter : Parameter) (text : Text) :
    argument? (parameter.rename newName) (Text.rename newName text) =
      (argument? parameter text).map (Group.renamed newName) := by
  cases parameter with
  | required =>
    rw [Parameter.rename, argument?, argument?, Group.braced?, Group.group?_eq, Group.group?_eq]
    exact Group.closes_braces.opened?_rename keeps 0 (by decide) text
  | optional default =>
    have renamed : Group.group? .brackets (Text.rename newName text) =
        (Group.group? .brackets text).map (Group.renamed newName) := by
      rw [Group.group?_eq, Group.group?_eq]
      exact Group.closes_brackets.opened?_rename keeps (0, 0) (by decide) text
    rw [Parameter.rename, argument?, argument?, Group.bracketed?, renamed]
    cases Group.group? .brackets text <;> rfl

/-- The arguments of renamed parameters are read from a renamed text as before. -/
theorem arguments?_rename (keeps : KeepsWords newName) (parameters : List Parameter)
    (text : Text) :
    arguments? (parameters.map (Parameter.rename newName)) (Text.rename newName text) =
      (arguments? parameters text).map fun (arguments, rest) =>
        (arguments.map (Text.rename newName), Text.rename newName rest) := by
  induction parameters generalizing text with
  | nil => rfl
  | cons parameter parameters ih =>
    rw [List.map_cons, arguments?, arguments?, argument?_rename keeps]
    cases argument? parameter text with
    | none => rfl
    | some found =>
      obtain ⟨argument, rest⟩ := found
      simp only [Option.map_some, Group.renamed, Option.bind_eq_bind, Option.bind_some, ih]
      cases arguments? parameters rest <;> rfl

/-- A second table has the renamed macros of a first one under all names that are known, and these
are all names that the macros call. -/
structure Carries (newName : Text → Text) (table other : MacroTable) (known : Text → Prop) :
    Prop where
  /-- Control words stay apart from control symbols. -/
  keeps : KeepsWords newName
  /-- Known names are found under their new names. -/
  find?_eq : ∀ name, known name →
    NameMap.find? other (newName name) = (NameMap.find? table name).map (Macro.rename newName)
  /-- Bodies call what is known. -/
  bodies : ∀ definition ∈ table.values, ∀ callee ∈ ControlSequence.names definition.body,
    known callee
  /-- Defaults call what is known. -/
  defaults : ∀ definition ∈ table.values, ∀ parameter ∈ definition.parameters,
    ∀ callee ∈ parameter.callees, known callee

/-- A renamed text puts in the renamed tokens. -/
theorem Carries.rowWithin {known : Text → Prop} (carries : Carries newName table other known)
    {bodies others : Macro → List Token} (same : ∀ definition ∈ table.values,
      others (definition.rename newName) = (bodies definition).map (Token.rename newName))
    {depth : Nat} (calls : ∀ name ∈ ControlSequence.names text, known name) :
    other.rowWithin others depth (Text.rename newName text) =
      (table.rowWithin bodies depth text).map (Token.rename newName) := by
  have keeps := carries.keeps
  have after {name rest : Text} (ends : IsWord name → endsControlWord rest = true) :=
    keeps.ends ends (Text.endsControlWord_rename newName rest)
  induction depth, text using expansion_induction table with
  | zero text => exact Text.ofText_rename keeps text
  | nil depth => rw [Text.rename_nil, rowWithin_nil, rowWithin_nil, List.map_nil]
  | character depth first tail plain ih =>
    have still : first = '\\' → Text.rename newName tail = [] := fun same => by
      rw [plain same, Text.rename_nil]
    rw [names_of_character plain] at calls
    rw [Text.rename_character plain, rowWithin_character _ _ _ still,
      rowWithin_character _ _ _ plain, ih calls]
    rfl
  | unknown depth name rest valid ends found ih =>
    rw [names_of_sequence valid ends, List.forall_mem_cons] at calls
    have absent : NameMap.find? other (newName name) = none := by
      rw [carries.find?_eq name calls.1, found, Option.map_none]
    rw [Text.rename_sequence valid ends,
      rowWithin_kept _ _ _ (keeps.isName valid) (after ends) (itemAfter_of_absent absent _),
      rowWithin_kept _ _ _ valid ends (itemAfter_of_absent found rest), ih calls.2]
    rfl
  | bare depth name rest definition valid ends found unread ih =>
    rw [names_of_sequence valid ends, List.forall_mem_cons] at calls
    have renamed : NameMap.find? other (newName name) = some (definition.rename newName) := by
      rw [carries.find?_eq name calls.1, found, Option.map_some]
    have unreadAgain : arguments? (definition.rename newName).parameters
        (Text.rename newName rest) = none := by
      rw [Macro.rename, arguments?_rename keeps, unread, Option.map_none]
    rw [Text.rename_sequence valid ends,
      rowWithin_kept _ _ _ (keeps.isName valid) (after ends)
        (itemAfter_of_unread renamed unreadAgain),
      rowWithin_kept _ _ _ valid ends (itemAfter_of_unread found unread), ih calls.2]
    rfl
  | call depth name rest definition arguments behind valid ends found read ihArguments ih =>
    rw [names_of_sequence valid ends, List.forall_mem_cons] at calls
    obtain ⟨inCall, inBehind⟩ := names_of_arguments? read
    have inTable := NameMap.mem_values_of_find? found
    have renamed : NameMap.find? other (newName name) = some (definition.rename newName) := by
      rw [carries.find?_eq name calls.1, found, Option.map_some]
    have readAgain : arguments? (definition.rename newName).parameters
        (Text.rename newName rest) =
          some (arguments.map (Text.rename newName), Text.rename newName behind) := by
      rw [Macro.rename, arguments?_rename keeps, read, Option.map_some]
    have expanded : (arguments.map (Text.rename newName)).map (other.rowWithin others depth) =
        (arguments.map (table.rowWithin bodies depth)).map (List.map (Token.rename newName)) := by
      rw [List.map_map, List.map_map]
      refine List.map_congr_left fun argument mem => ihArguments argument mem ?_
      intro callee called
      rcases inCall argument mem with ⟨inText, -⟩ | default
      · exact calls.2 callee (inText called)
      · exact carries.defaults definition inTable _ default callee called
    have arity : (definition.rename newName).arity = definition.arity := by
      simp [Macro.arity, Macro.rename]
    rw [Text.rename_sequence valid ends,
      rowWithin_call _ _ _ (keeps.isName valid) (after ends) (itemAfter_of_read renamed readAgain),
      rowWithin_call _ _ _ valid ends (itemAfter_of_read found read),
      ih fun callee called => calls.2 callee (inBehind called), expanded, arity,
      same definition inTable, flatMap_loosen_rename keeps, fill_rename, List.map_append]

/-- Where defaults call nothing, depth does not matter to what a renamed text puts in. -/
theorem Carries.row {known : Text → Prop} (carries : Carries newName table other known)
    (plain : table.PlainDefaults) (plainOther : other.PlainDefaults)
    {bodies others : Macro → List Token} (same : ∀ definition ∈ table.values,
      others (definition.rename newName) = (bodies definition).map (Token.rename newName))
    (calls : ∀ name ∈ ControlSequence.names text, known name) :
    other.row others (Text.rename newName text) =
      (table.row bodies text).map (Token.rename newName) := by
  have deep : text.length < text.length + (Text.rename newName text).length + 1 := by omega
  have deepOther : (Text.rename newName text).length <
      text.length + (Text.rename newName text).length + 1 := by omega
  rw [← plain.rowWithin_eq deep, ← plainOther.rowWithin_eq deepOther,
    carries.rowWithin same calls]

/-- The bodies of renamed macros have the renamed tokens at every level. -/
theorem Carries.bodyRow {known : Text → Prop} (carries : Carries newName table other known)
    (plain : table.PlainDefaults) (plainOther : other.PlainDefaults) (levels : Nat) :
    ∀ definition ∈ table.values, other.bodyRow levels (definition.rename newName) =
      (table.bodyRow levels definition).map (Token.rename newName) := by
  induction levels with
  | zero => exact fun _ _ => rfl
  | succ levels ih =>
    exact fun definition inTable =>
      carries.row plain plainOther ih (carries.bodies definition inTable)

/-- New names for the macros of a table: different control words that neither the macros nor a text
have as control sequences, unless they are names of macros and so get new names themselves. Other
control sequences keep their names. -/
structure Renames (newName : Text → Text) (table : MacroTable) (text : Text) : Prop where
  /-- Only macros are renamed. -/
  elsewhere : ∀ name, NameMap.contains table name = false → newName name = name
  /-- New names are control words. -/
  word : ∀ name ∈ NameMap.keys table, IsWord (newName name)
  /-- Different macros get different names. -/
  injective : ∀ left ∈ NameMap.keys table, ∀ right ∈ NameMap.keys table,
    newName left = newName right → left = right
  /-- A control sequence of the text that is a new name is a macro. -/
  fresh : ∀ name ∈ NameMap.keys table, newName name ∈ ControlSequence.names text →
    newName name ∈ NameMap.keys table
  /-- A control sequence of a body that is a new name is a macro. -/
  freshBodies : ∀ name ∈ NameMap.keys table, ∀ definition ∈ table.values,
    newName name ∈ ControlSequence.names definition.body → newName name ∈ NameMap.keys table
  /-- A control sequence of a default that is a new name is a macro. -/
  freshDefaults : ∀ name ∈ NameMap.keys table, ∀ definition ∈ table.values,
    ∀ parameter ∈ definition.parameters, newName name ∈ parameter.callees →
      newName name ∈ NameMap.keys table

/-- A name that is no new name unless it is a macro. -/
def Familiar (newName : Text → Text) (table : MacroTable) (name : Text) : Prop :=
  ∀ key ∈ NameMap.keys table, newName key = name → name ∈ NameMap.keys table

section Renames

variable (renames : Renames newName table text) (keyed : table.Keyed)

include renames keyed

/-- The renamed macros are entered in order under their new names. -/
theorem Renames.entries : (table.rename newName).entries =
    table.entries.map fun (name, definition) => (newName name, definition.rename newName) := by
  have named : (table.values.map (Macro.rename newName)).map Macro.name =
      (NameMap.keys table).map newName := by
    rw [NameMap.values, NameMap.keys, List.map_map, List.map_map, List.map_map]
    exact List.map_congr_left fun entry mem => congrArg newName (keyed entry mem)
  have distinct : ((table.values.map (Macro.rename newName)).map Macro.name).Nodup := by
    rw [named]
    exact table.distinct.map_on renames.injective
  rw [rename, entries_ofMacros distinct, NameMap.values, List.map_map, List.map_map]
  refine List.map_congr_left fun entry mem => ?_
  exact congrArg (fun name => (newName name, entry.2.rename newName)) (keyed entry mem)

/-- Whatever is found among the renamed macros is a renamed macro. -/
theorem Renames.of_find? {name : Text} {definition : Macro}
    (found : NameMap.find? (table.rename newName) name = some definition) :
    ∃ key original, NameMap.find? table key = some original ∧ newName key = name ∧
      original.rename newName = definition := by
  rw [NameMap.find?_eq_some_iff, renames.entries keyed, List.mem_map] at found
  obtain ⟨⟨key, original⟩, entry, same⟩ := found
  rw [Prod.mk.injEq] at same
  exact ⟨key, original, NameMap.find?_eq_some_iff.2 entry, same⟩

/-- Renamed macros are found under the new names. -/
theorem Renames.find?_eq {name : Text} (familiar : Familiar newName table name) :
    NameMap.find? (table.rename newName) (newName name) =
      (NameMap.find? table name).map (Macro.rename newName) := by
  cases found : NameMap.find? table name with
  | some definition =>
    rw [Option.map_some, NameMap.find?_eq_some_iff, renames.entries keyed]
    exact List.mem_map.2 ⟨_, NameMap.find?_eq_some_iff.1 found, rfl⟩
  | none =>
    have absent := NameMap.find?_eq_none_iff.1 found
    rw [renames.elsewhere name absent, Option.map_none, Option.eq_none_iff_forall_ne_some]
    -- What is not renamed is not found, since it is no new name.
    intro definition inRenamed
    obtain ⟨key, original, inTable, same, -⟩ := renames.of_find? keyed inRenamed
    have isKey := NameMap.contains_iff.1 (NameMap.contains_of_find? inTable)
    have inside := familiar key isKey same
    rw [← NameMap.contains_iff, absent] at inside
    cases inside

/-- The renamed table carries the renamed macros. -/
theorem Renames.carries (words : ∀ name ∈ NameMap.keys table, IsWord name) :
    Carries newName table (table.rename newName) (Familiar newName table) where
  keeps := by
    constructor
    · intro name word
      by_cases inside : NameMap.contains table name = true
      · exact renames.word name (NameMap.contains_iff.1 inside)
      · rwa [renames.elsewhere name (Bool.eq_false_iff.2 inside)]
    · intro name noWord
      refine renames.elsewhere name (Bool.eq_false_iff.2 fun inside => noWord ?_)
      exact words name (NameMap.contains_iff.1 inside)
  find?_eq _ := renames.find?_eq keyed
  bodies definition mem callee called key isKey same := by
    subst same
    exact renames.freshBodies key isKey definition mem called
  defaults definition mem parameter inParameters callee called key isKey same := by
    subst same
    exact renames.freshDefaults key isKey definition mem parameter inParameters called

/-- Renamed macros are entered under their names. -/
theorem Renames.keyed_rename : (table.rename newName).Keyed := by
  intro entry mem
  rw [renames.entries keyed, List.mem_map] at mem
  obtain ⟨original, inTable, rfl⟩ := mem
  exact congrArg newName (keyed original inTable)

/-- The renamed table has as many macros. -/
theorem Renames.size : NameMap.size (table.rename newName) = NameMap.size table := by
  rw [NameMap.size, renames.entries keyed, List.length_map, NameMap.size]

/-- Renamed defaults call nothing if the defaults do not. -/
theorem Renames.plainDefaults (words : ∀ name ∈ NameMap.keys table, IsWord name)
    (plain : table.PlainDefaults) : (table.rename newName).PlainDefaults := by
  have carries := renames.carries keyed words
  refine NameMap.forall_mem_values.2 fun name definition found => ?_
  obtain ⟨key, original, inTable, -, rfl⟩ := renames.of_find? keyed found
  intro parameter mem callee called
  obtain ⟨before, inParameters, rfl⟩ := List.mem_map.1 mem
  have inValues := NameMap.mem_values_of_find? inTable
  cases before with
  | required => cases called
  | optional default =>
    rw [Parameter.rename, Parameter.callees, Text.names_rename carries.keeps] at called
    obtain ⟨target, inDefault, rfl⟩ := List.mem_map.1 called
    have absent := plain original inValues _ inParameters target inDefault
    rw [← NameMap.find?_eq_none_iff] at absent ⊢
    rw [carries.find?_eq target
      (carries.defaults original inValues _ inParameters target inDefault), absent, Option.map_none]

/-- Renamed macros call each other as the macros do. -/
theorem Renames.of_calls (words : ∀ name ∈ NameMap.keys table, IsWord name) {caller callee : Text}
    (calls : (table.rename newName).Calls caller callee) :
    ∃ source target, newName source = caller ∧ newName target = callee ∧
      table.Calls source target := by
  have carries := renames.carries keyed words
  obtain ⟨definition, found, called, inside⟩ := calls
  obtain ⟨source, original, inTable, rfl, rfl⟩ := renames.of_find? keyed found
  rw [Macro.rename, Text.names_rename carries.keeps] at called
  obtain ⟨target, inBody, rfl⟩ := List.mem_map.1 called
  have familiar := carries.bodies original (NameMap.mem_values_of_find? inTable) target inBody
  rw [NameMap.contains, carries.find?_eq target familiar, Option.isSome_map] at inside
  exact ⟨source, target, rfl, rfl, original, inTable, inBody, inside⟩

/-- A renamed macro reaches itself only if the macro does. -/
theorem Renames.acyclic (words : ∀ name ∈ NameMap.keys table, IsWord name)
    (acyclic : ∀ name, ¬TransGen table.Calls name name) (name : Text) :
    ¬TransGen (table.rename newName).Calls name name := by
  have traced {low high : Text} (reaches : TransGen (table.rename newName).Calls low high) :
      ∃ source target, newName source = low ∧ newName target = high ∧
        source ∈ NameMap.keys table ∧ target ∈ NameMap.keys table ∧
        TransGen table.Calls source target := by
    induction reaches with
    | single calls =>
      obtain ⟨source, target, rfl, rfl, step⟩ := renames.of_calls keyed words calls
      exact ⟨source, target, rfl, rfl, step.caller_mem_keys, step.mem_keys, .single step⟩
    | tail _ calls ih =>
      obtain ⟨source, middle, rfl, renamed, inTable, isMiddle, before⟩ := ih
      obtain ⟨again, target, equal, rfl, step⟩ := renames.of_calls keyed words calls
      have joined := renames.injective again step.caller_mem_keys middle isMiddle
        (equal.trans renamed.symm)
      subst joined
      exact ⟨source, target, rfl, rfl, inTable, step.mem_keys, before.tail step⟩
  intro reaches
  obtain ⟨source, target, first, last, inTable, isTarget, path⟩ := traced reaches
  have joined := renames.injective source inTable target isTarget (first.trans last.symm)
  subst joined
  exact acyclic source path

/-- Renaming the macros and a text renames the tokens that are put in for the text. -/
theorem Renames.completeRow (words : ∀ name ∈ NameMap.keys table, IsWord name)
    (plain : table.PlainDefaults) :
    (table.rename newName).completeRow (Text.rename newName text) =
      (table.completeRow text).map (Token.rename newName) := by
  have carries := renames.carries keyed words
  have plainOther := renames.plainDefaults keyed words plain
  rw [MacroTable.completeRow, MacroTable.completeRow, renames.size keyed]
  refine carries.row plain plainOther (carries.bodyRow plain plainOther _) ?_
  rintro name called key isKey rfl
  exact renames.fresh key isKey called

end Renames

/-- Where no macro reaches itself and no default calls a macro, what a text is expanded to does not
depend on the order of the names. The resolved table spells a row of tokens, and after renaming the
macros and the text it spells the renamed row; if the row is read back as it is, the result is the
renamed result. -/
theorem expand_resolve_rename (keyed : table.Keyed)
    (words : ∀ name ∈ NameMap.keys table, IsWord name) (plain : table.PlainDefaults)
    (acyclic : ∀ name, ¬TransGen table.Calls name name) (renames : Renames newName table text) :
    table.resolve.1.expand text = spell (table.completeRow text) ∧
    (table.rename newName).resolve.1.expand (Text.rename newName text) =
      spell ((table.completeRow text).map (Token.rename newName)) ∧
    (Legible (table.completeRow text) →
      (table.rename newName).resolve.1.expand (Text.rename newName text) =
        Text.rename newName (table.resolve.1.expand text)) := by
  have original := spell_completeRow keyed plain (selfReferential_eq_nil acyclic) text
  have renamed := spell_completeRow (renames.keyed_rename keyed)
    (renames.plainDefaults keyed words plain)
    (selfReferential_eq_nil (renames.acyclic keyed words acyclic)) (Text.rename newName text)
  rw [renames.completeRow keyed words plain] at renamed
  refine ⟨original.symm, renamed.symm, fun legible => ?_⟩
  rw [← renamed, ← original, Text.rename, legible.ofText_spell]

/-- The names that a list of pairs gives. -/
def nameBy (pairs : List (Text × Text)) (name : Text) : Text := (pairs.lookup name).getD name

/-- A list of pairs renames nothing but the first names in it. -/
theorem nameBy_elsewhere {pairs : List (Text × Text)} {name : Text}
    (outside : name ∉ pairs.map Prod.fst) : nameBy pairs name = name := by
  have unpaired : pairs.lookup name = none := by
    rw [List.lookup_eq_none_iff]
    intro pair mem
    exact bne_iff_ne.2 fun same => outside (List.mem_map.2 ⟨pair, mem, same.symm⟩)
  rw [nameBy, unpaired, Option.getD_none]

/-- A macro that calls two others, one of them with an optional argument. -/
def nested : MacroTable := ofMacros
  [.plain "f".toList "\\g\\k".toList, .withOptional "g".toList 1 "\\it".toList "(#1)".toList,
    .plain "k".toList "z".toList]

/-- Its expansion is the same under names in another order. -/
theorem expand_resolve_rename_nested : nested.Keyed ∧ nested.PlainDefaults ∧
    (nested.rename (nameBy [("f".toList, "p".toList), ("k".toList, "a".toList)])).resolve.1.expand
      "\\p x".toList = nested.resolve.1.expand "\\f x".toList := by
  have keyed : nested.Keyed := by decide +kernel
  have plain : nested.PlainDefaults := by decide +kernel
  have acyclic := acyclic_of_upwards nested (fun name => (name.headD 'a').toNat)
    (by decide +kernel)
  have renames : Renames (nameBy [("f".toList, "p".toList), ("k".toList, "a".toList)]) nested
      "\\f x".toList := by
    refine ⟨fun name outside => nameBy_elsewhere fun inside => ?_, by decide +kernel,
      by decide +kernel, by decide +kernel, by decide +kernel, by decide +kernel⟩
    have known : ∀ name ∈ ["f".toList, "k".toList], NameMap.contains nested name = true := by
      decide +kernel
    rw [known name inside] at outside
    cases outside
  obtain ⟨spelled, -, same⟩ :=
    expand_resolve_rename keyed (by decide +kernel) plain acyclic renames
  have row : nested.completeRow "\\f x".toList = ofText "(\\it)z x".toList := by decide +kernel
  have result : nested.resolve.1.expand "\\f x".toList = "(\\it)z x".toList := by
    rw [spelled, row, spell_ofText]
  have input : Text.rename (nameBy [("f".toList, "p".toList), ("k".toList, "a".toList)])
      "\\f x".toList = "\\p x".toList := by
    decide +kernel
  have output : Text.rename (nameBy [("f".toList, "p".toList), ("k".toList, "a".toList)])
      "(\\it)z x".toList = "(\\it)z x".toList := by
    decide +kernel
  refine ⟨keyed, plain, ?_⟩
  rw [← input, same (row ▸ legible_ofText _), result, output]

/-- A macro that calls one with an optional argument, whose default calls a third macro, which
calls a last one. -/
def lateDefault : MacroTable := ofMacros
  [.plain "f".toList "\\g".toList, .withOptional "g".toList 1 "\\h".toList "#1".toList,
    .plain "h".toList "\\k".toList, .plain "k".toList "z".toList]

/-- New names for these macros, in the opposite order. -/
def turnedName : Text → Text := nameBy
  [("f".toList, "s".toList), ("g".toList, "r".toList), ("h".toList, "q".toList),
    ("k".toList, "p".toList)]

/-- The order of resolution does not follow defaults. Bodies and defaults of these macros lead from
each name to later ones only, and new names change what their expansion comes to: the macro that
the default calls is or is not resolved before the default is put in. -/
theorem expand_resolve_rename_lateDefault :
    lateDefault.Keyed ∧ (∀ name ∈ NameMap.keys lateDefault, IsWord name) ∧
    (∀ entry ∈ lateDefault.entries, ∀ callee ∈ ControlSequence.names entry.2.body ++
      entry.2.parameters.flatMap Parameter.callees, NameMap.contains lateDefault callee = true →
        Utf8.encode entry.1 < Utf8.encode callee) ∧
    Renames turnedName lateDefault "\\f".toList ∧
    lateDefault.resolve.1.expand "\\f".toList = "\\k".toList ∧
    (lateDefault.rename turnedName).resolve.1.expand (Text.rename turnedName "\\f".toList) =
      "z".toList ∧
    Text.rename turnedName "\\k".toList ≠ "z".toList := by
  have renames : Renames turnedName lateDefault "\\f".toList := by
    refine ⟨fun name outside => nameBy_elsewhere fun inside => ?_, by decide +kernel,
      by decide +kernel, by decide +kernel, by decide +kernel, by decide +kernel⟩
    rw [← Bool.not_eq_true, NameMap.contains_iff] at outside
    exact outside inside
  have forward := acyclic_of_upwards lateDefault
    (fun name => (name.headD 'a').toNat) (by decide +kernel)
  have backward := renames.acyclic (by decide +kernel) (by decide +kernel) forward
  have sorted : (NameMap.keys lateDefault).Pairwise
      fun left right => Text.atMost left right = true := by decide +kernel
  have turned : (NameMap.keys (lateDefault.rename turnedName)).Perm
      ["p".toList, "q".toList, "r".toList, "s".toList] := by decide +kernel
  refine ⟨by decide +kernel, by decide +kernel, by decide +kernel, renames, ?_, ?_,
    by decide +kernel⟩
  · rw [resolve_eq_foldl forward (List.Perm.refl _) sorted]
    decide +kernel
  · rw [resolve_eq_foldl backward turned (by decide +kernel)]
    decide +kernel

end MacroTable
end TexStatements
