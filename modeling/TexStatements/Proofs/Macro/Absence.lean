import TexStatements.Macro.Family
import TexStatements.Proofs.Macro.Depth
import TexStatements.Proofs.Text.Commands

/-!
# Texts without macro definitions

A text in which no family of definitions finds a keyword is carried out as it stands: nothing is
collected from it, and the empty table expands nothing.
-/
namespace TexStatements
namespace MacroTable

/-- Control sequences are kept by the empty table. -/
theorem itemAfter_empty (name text : Text) :
    itemAfter NameMap.empty name text = (.kept name, text) := rfl

/-- The empty table expands nothing, at any depth. -/
theorem expandWithin_empty (depth : Nat) (text : Text) :
    expandWithin NameMap.empty depth text = text := by
  cases depth with
  | zero => rfl
  | succ depth =>
    refine Reader.replaceAll_eq_self ?_ text
    intro text value rest read
    simp only [item, Reader.andThen, Option.bind_eq_bind, Option.bind_eq_some_iff,
      itemAfter_empty, Option.some.injEq, Prod.mk.injEq] at read
    obtain ⟨⟨name, after⟩, found, rfl, rfl⟩ := read
    exact (ControlSequence.read?_eq_append found).symm

/-- The empty table expands nothing. -/
theorem expand_empty (text : Text) : expand NameMap.empty text = text :=
  expandWithin_empty _ text

/-- Nothing is collected from a text without keywords. -/
theorem collect_of_silent {family : DefinitionFamily} {text : Text} (table : MacroTable)
    (silent : (keyword family.words.contains).SilentOver text []) :
    collect table family text = (text, table, []) := by
  simp [collect, Reader.occurrences_of_silent silent]

/-- No macro of the empty table reaches itself. -/
theorem selfReferential_empty : selfReferential NameMap.empty = [] := by
  simp [selfReferential, NameMap.keys, NameMap.empty, Text.sort]

/-- The empty table has nothing to resolve. -/
theorem resolutionOrder_empty : resolutionOrder NameMap.empty = [] := by
  simp [resolutionOrder, NameMap.keys, NameMap.empty, Text.sort]

/-- The empty table is resolved. -/
theorem resolve_empty : resolve NameMap.empty = (NameMap.empty, []) := by
  simp [resolve, selfReferential_empty, eraseAll, resolutionOrder_empty]

/-- No expansions resolve the empty table. -/
theorem resolveExpansions_empty : resolveExpansions NameMap.empty = [] := by
  simp [resolveExpansions, selfReferential_empty, eraseAll, resolutionOrder_empty, bodyExpansions]

/-- Every text has an expansion by the empty table. -/
theorem expand?_empty_isSome (text : Text) : (expand? NameMap.empty text).isSome = true := by
  have plain : PlainDefaults NameMap.empty := nofun
  exact expand?_isSome_iff.2 (acc_of_acyclic plain.acyclic text)

end MacroTable

/-- A family without keywords in a text leaves it as it is. -/
theorem DefinitionFamily.expand_of_silent {family : DefinitionFamily} {text : Text}
    (silent : (keyword family.words.contains).SilentOver text []) :
    family.expand text = ⟨text, NameMap.empty, []⟩ := by
  simp only [expand, MacroTable.collect_of_silent NameMap.empty silent, MacroTable.resolve_empty,
    MacroTable.expand_empty, List.append_nil]

/-- All that such a family expands is the text, by the empty table. -/
theorem DefinitionFamily.expansions_of_silent {family : DefinitionFamily} {text : Text}
    (silent : (keyword family.words.contains).SilentOver text []) :
    family.expansions text = [(NameMap.empty, text)] := by
  simp only [expansions, MacroTable.collect_of_silent NameMap.empty silent,
    MacroTable.resolveExpansions_empty, MacroTable.resolve_empty, List.nil_append]

end TexStatements
