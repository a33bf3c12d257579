import Mathlib.Data.List.Nodup
import TexStatements.Proofs.Macro.Resolution

/-!
# Expansion without an order

The tokens that a resolved table puts in for a text can be told from the unresolved table alone:
calls are replaced by bodies whose calls are replaced in turn, down to as many levels as there are
macros. No order of the macros enters into it, and where no macro reaches itself it spells what the
resolved table makes of the text (`spell_completeRow`).
-/
namespace TexStatements
namespace MacroTable

open ControlSequence Token Relation

variable {table : MacroTable} {bodies : Macro → List Token} {text : Text}

/-- The tokens that are put in for a text where defaults call nothing: arguments are shorter than
the text, so this depth suffices. -/
def row (table : MacroTable) (bodies : Macro → List Token) (text : Text) : List Token :=
  table.rowWithin bodies (text.length + 1) text

/-- A sufficient depth is as good as the least. -/
theorem PlainDefaults.rowWithin_eq (plain : table.PlainDefaults) {depth : Nat}
    (deep : text.length < depth) : table.rowWithin bodies depth text = table.row bodies text :=
  rowWithin_congr plain plain deep (Nat.lt_succ_self _) fun _ _ => rfl

/-- The tokens of a body whose calls are replaced down to a number of levels. -/
def bodyRow (table : MacroTable) : Nat → Macro → List Token
  | 0, _ => []
  | levels + 1, definition => table.row (bodyRow table levels) definition.body

/-- The tokens of a text all of whose calls are replaced. -/
def completeRow (table : MacroTable) (text : Text) : List Token :=
  table.row (table.bodyRow (NameMap.size table)) text

/-- Bodies have readable tokens at every level. -/
theorem valid_bodyRow (table : MacroTable) (levels : Nat) (definition : Macro) :
    Valid (table.bodyRow levels definition) := by
  induction levels generalizing definition with
  | zero => exact fun _ mem => absurd mem List.not_mem_nil
  | succ levels ih => exact valid_rowWithin ih _ _

/-- What is put in for a text spells its expansion by the resolved table, if the bodies spell those
of the resolved macros that the text calls. -/
theorem spell_row (keyed : table.Keyed) (plain : table.PlainDefaults)
    (acyclic : table.selfReferential = []) (validBodies : ∀ definition, Valid (bodies definition))
    (final : ∀ name ∈ ControlSequence.names text, NameMap.contains table name = true →
      NameMap.find? table.resolve.1 name = (NameMap.find? table name).map fun definition =>
        { definition with body := spell (bodies definition) }) :
    spell (table.row bodies text) = table.resolve.1.expand text := by
  have absent (name : Text) (unknown : NameMap.find? table name = none) :
      NameMap.find? table.resolve.1 name = none := by
    rw [find?_resolve keyed plain, kept_eq_self acyclic, unknown, Option.map_none]
  rw [row, spell_rowWithin plain validBodies absent ?_,
    (plain_resolve keyed plain).expandWithin_eq (Nat.lt_succ_self _)]
  intro name called
  by_cases inside : NameMap.contains table name = true
  · exact final name called inside
  · have unknown := NameMap.find?_eq_none_iff.2 (Bool.eq_false_iff.2 inside)
    rw [absent name unknown, unknown, Option.map_none]

/-- With a level for each listed name, the bodies of the listed macros spell the resolved ones. -/
theorem spell_bodyRow (keyed : table.Keyed) (plain : table.PlainDefaults)
    (acyclic : table.selfReferential = []) {listed : List Text}
    (settled : Settled table.callees listed) {levels : Nat} (enough : listed.length ≤ levels) :
    ∀ name ∈ listed, NameMap.find? table.resolve.1 name =
      (NameMap.find? table name).map fun definition =>
        { definition with body := spell (table.bodyRow levels definition) } := by
  induction settled generalizing levels with
  | nil => exact fun _ mem => absurd mem List.not_mem_nil
  | @concat listed last before fresh behind ih =>
    rw [List.length_append, List.length_singleton] at enough
    intro name mem
    rcases List.mem_append.1 mem with earlier | isLast
    · exact ih (by omega) name earlier
    · obtain ⟨fewer, rfl⟩ : ∃ fewer, levels = fewer + 1 := ⟨levels - 1, by omega⟩
      rw [List.mem_singleton] at isLast
      subst isLast
      rw [find?_resolve keyed plain, kept_eq_self acyclic]
      cases found : NameMap.find? table name with
      | none => rfl
      | some definition =>
        have spelled : spell (table.bodyRow (fewer + 1) definition) =
            table.resolve.1.expand definition.body :=
          spell_row keyed plain acyclic (valid_bodyRow table fewer) fun callee called inside =>
            ih (by omega) callee
              (behind callee (mem_callees.2 ⟨definition, found, called, inside⟩))
        rw [Option.map_some, Option.map_some, spelled]

/-- Where no macro reaches itself, the resolved table expands a text to the spelling of the row of
tokens that all calls are replaced by. -/
theorem spell_completeRow (keyed : table.Keyed) (plain : table.PlainDefaults)
    (acyclic : table.selfReferential = []) (text : Text) :
    spell (table.completeRow text) = table.resolve.1.expand text := by
  have noCycle := kept_acyclic table
  rw [kept_eq_self acyclic] at noCycle
  have settled := resolutionOrder_settled noCycle
  have short : table.resolutionOrder.length ≤ NameMap.size table := by
    have inKeys := settled.nodup.subperm fun name mem => (mem_resolutionOrder noCycle).1 mem
    simpa [NameMap.keys, NameMap.size] using inKeys.length_le
  exact spell_row keyed plain acyclic (valid_bodyRow table _) fun name _ inside =>
    spell_bodyRow keyed plain acyclic settled short name
      ((mem_resolutionOrder noCycle).2 (NameMap.contains_iff.1 inside))

end MacroTable
end TexStatements
