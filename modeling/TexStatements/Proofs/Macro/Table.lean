import TexStatements.Macro.Definition
import TexStatements.Macro.Expansion
import TexStatements.Proofs.NameMap

/-!
# Tables of macros

A table enters every macro under its own name. Defining, removing and collecting macros keep it
so; nothing else makes a table. The optional parameters of a macro have defaults, and most of what
is said about expansion holds where no default calls a macro of the table.
-/
namespace TexStatements

/-- The control sequences of the default of a parameter. -/
def Parameter.callees : Parameter → List Text
  | .required => []
  | .optional default => ControlSequence.names default

namespace MacroTable

variable {table : MacroTable} {name : Text} {definition : Macro}

/-- Every macro is entered under its name. -/
def Keyed (table : MacroTable) : Prop := ∀ entry ∈ table.entries, entry.2.name = entry.1

instance (table : MacroTable) : Decidable table.Keyed :=
  inferInstanceAs (Decidable (∀ entry ∈ table.entries, entry.2.name = entry.1))

/-- No default calls a macro of the table. -/
def PlainDefaults (table : MacroTable) : Prop :=
  ∀ definition ∈ table.values, ∀ parameter ∈ definition.parameters,
    ∀ callee ∈ parameter.callees, NameMap.contains table callee = false

instance (table : MacroTable) : Decidable table.PlainDefaults :=
  inferInstanceAs (Decidable (∀ definition ∈ table.values,
    ∀ parameter ∈ definition.parameters, ∀ callee ∈ parameter.callees,
      NameMap.contains table callee = false))

/-- The macro found under a name has that name. -/
theorem Keyed.name_eq (keyed : table.Keyed) (found : NameMap.find? table name = some definition) :
    definition.name = name := keyed _ (NameMap.find?_eq_some_iff.1 found)

/-- A default that calls no macro is found under no control sequence of it. -/
theorem PlainDefaults.find?_eq_none (plain : table.PlainDefaults)
    (found : NameMap.find? table name = some definition) {default callee : Text}
    (mem : .optional default ∈ definition.parameters)
    (calls : callee ∈ ControlSequence.names default) : NameMap.find? table callee = none :=
  NameMap.find?_eq_none_iff.2
    (plain definition (NameMap.mem_values_of_find? found) (.optional default) mem callee calls)

/-- The table without macros is keyed. -/
theorem keyed_empty : Keyed NameMap.empty := fun _ mem => absurd mem List.not_mem_nil

/-- A definition is entered under its name. -/
theorem Keyed.define (keyed : table.Keyed) (definition : Macro) :
    (table.define definition).Keyed := by
  intro entry mem
  have found := NameMap.find?_eq_some_iff.2 mem
  rw [MacroTable.define, NameMap.find?_insert] at found
  by_cases same : definition.name = entry.1
  · rw [if_pos same, Option.some.injEq] at found
    rw [← found, same]
  · rw [if_neg same] at found
    exact keyed.name_eq found

/-- The table of some macros; of two with one name the later one counts. -/
def ofMacros (definitions : List Macro) : MacroTable := definitions.foldl define NameMap.empty

/-- Macros of different names are entered in order. -/
theorem entries_ofMacros {definitions : List Macro}
    (distinct : (definitions.map Macro.name).Nodup) :
    (ofMacros definitions).entries = definitions.map fun definition =>
      (definition.name, definition) := by
  have entered : ∀ (definitions : List Macro) (table : MacroTable),
      (table.entries.map Prod.fst ++ definitions.map Macro.name).Nodup →
      (definitions.foldl MacroTable.define table).entries =
        table.entries ++ definitions.map fun definition => (definition.name, definition) := by
    intro definitions
    induction definitions with
    | nil => exact fun table _ => (List.append_nil _).symm
    | cons first definitions ih =>
      intro table distinct
      have fresh : first.name ∉ table.entries.map Prod.fst := fun mem =>
        (List.nodup_append.1 distinct).2.2 _ mem _ (List.mem_cons_self ..) rfl
      have added : (table.define first).entries = table.entries ++ [(first.name, first)] :=
        NameMap.put_of_not_mem first fresh
      rw [List.foldl_cons, ih, added, List.append_assoc]
      · rfl
      · rw [added]
        simpa using distinct
  exact entered definitions NameMap.empty (by simpa [NameMap.empty] using distinct)

/-- Removing a macro leaves the others under their names. -/
theorem Keyed.erase (keyed : table.Keyed) (name : Text) : Keyed (NameMap.erase table name) :=
  fun entry mem => keyed entry (List.mem_filter.1 mem).1

/-- Going on to a keyword enters at most one macro, under its name. -/
theorem Keyed.step (family : DefinitionFamily) {state : Collection} (keyed : state.table.Keyed)
    (found : Found Keyword) : (Collection.step family state found).table.Keyed := by
  unfold Collection.step
  split
  · exact keyed
  · split
    · exact keyed
    · exact keyed
    · dsimp only
      split
      · exact keyed
      · exact keyed.define _

/-- The definitions of a family are collected under their names. -/
theorem Keyed.collect (keyed : table.Keyed) (family : DefinitionFamily) (text : Text) :
    (table.collect family text).2.1.Keyed := by
  have steps : ∀ (places : List (Found Keyword)) (state : Collection), state.table.Keyed →
      (places.foldl (Collection.step family) state).table.Keyed := by
    intro places
    induction places with
    | nil => exact fun _ keyed => keyed
    | cons place places ih => exact fun state keyed => ih _ (keyed.step family place)
  exact steps _ ⟨text, [], table, []⟩ keyed

/-- A text is shorter than the number of levels that its expansion may go. -/
theorem length_lt_depthBound (table : MacroTable) (text : Text) :
    text.length < table.depthBound text := by
  unfold depthBound
  omega

end MacroTable
end TexStatements
