import TexStatements.Proofs.Macro.Order
import TexStatements.Proofs.Macro.Row

/-!
# Resolved tables

Resolution removes the macros that reach themselves and expands the bodies of the others in a
settled order. When a body is expanded, the macros that it calls are final, and no later step
changes them; so in the end every body is its own expansion by the final table
(`find?_resolve`). All of this is for tables whose defaults call none of their macros.
-/
namespace TexStatements
namespace MacroTable

open Relation

variable {table current : MacroTable} {name : Text}

/-- A table that has no other macros than a second one, with the same parameters, has plain
defaults if that has. -/
theorem PlainDefaults.of_find? (plain : table.PlainDefaults)
    (known : ∀ name (definition : Macro), NameMap.find? current name = some definition →
      ∃ original, NameMap.find? table name = some original ∧
        definition.parameters = original.parameters) : current.PlainDefaults := by
  intro definition mem parameter inParameters callee called
  obtain ⟨⟨name, _⟩, entry, rfl⟩ := List.mem_map.1 mem
  obtain ⟨original, found, same⟩ := known name _ (NameMap.find?_eq_some_iff.2 entry)
  have absent := plain original (NameMap.mem_values_of_find? found) parameter
    (same ▸ inParameters) callee called
  rw [← NameMap.find?_eq_none_iff] at absent ⊢
  cases inCurrent : NameMap.find? current callee with
  | none => rfl
  | some other =>
    obtain ⟨_, inTable, -⟩ := known callee other inCurrent
    rw [absent] at inTable
    cases inTable

/-- A removed macro is not found any more, and the others are found as before. -/
theorem find?_eraseAll (table : MacroTable) (names : List Text) (name : Text) :
    NameMap.find? (table.eraseAll names) name =
      if name ∈ names then none else NameMap.find? table name := by
  induction names generalizing table with
  | nil => rfl
  | cons first names ih =>
    rw [eraseAll, List.foldl_cons, ← eraseAll, ih, NameMap.find?_erase]
    by_cases later : name ∈ names
    · simp [later]
    · by_cases same : first = name
      · simp [same]
      · have different : ¬name = first := fun equal => same equal.symm
        simp [later, same, different]

/-- Removing macros leaves the others under their names. -/
theorem Keyed.eraseAll (keyed : table.Keyed) (names : List Text) :
    (table.eraseAll names).Keyed := by
  induction names generalizing table with
  | nil => exact keyed
  | cons first names ih => exact ih (keyed.erase first)

/-- The macros of a table that do not reach themselves. -/
def kept (table : MacroTable) : MacroTable := table.eraseAll table.selfReferential

/-- The kept macros are those that do not reach themselves. -/
theorem find?_kept (table : MacroTable) (name : Text) : NameMap.find? table.kept name =
    if name ∈ table.selfReferential then none else NameMap.find? table name :=
  find?_eraseAll table _ name

/-- A kept macro is a macro of the table that does not reach itself. -/
theorem of_find?_kept {definition : Macro}
    (found : NameMap.find? table.kept name = some definition) :
    name ∉ table.selfReferential ∧ NameMap.find? table name = some definition := by
  rw [find?_kept] at found
  by_cases dropped : name ∈ table.selfReferential
  · rw [if_pos dropped] at found
    cases found
  · rw [if_neg dropped] at found
    exact ⟨dropped, found⟩

/-- All macros are kept where none reaches itself. -/
theorem kept_eq_self (acyclic : table.selfReferential = []) : table.kept = table := by
  rw [kept, acyclic]
  rfl

/-- Removing macros leaves plain defaults plain. -/
theorem PlainDefaults.kept (plain : table.PlainDefaults) : table.kept.PlainDefaults :=
  plain.of_find? fun _ definition found => ⟨definition, (of_find?_kept found).2, rfl⟩

/-- No kept macro reaches itself. -/
theorem kept_acyclic (table : MacroTable) (name : Text) : ¬TransGen table.kept.Calls name name := by
  have inTable {left right : Text} (calls : table.kept.Calls left right) :
      left ∉ table.selfReferential ∧ table.Calls left right := by
    obtain ⟨definition, found, called, inside⟩ := calls
    obtain ⟨callee, isCallee⟩ := Option.isSome_iff_exists.1 inside
    obtain ⟨survives, inTable⟩ := of_find?_kept found
    exact ⟨survives, definition, inTable, called,
      NameMap.contains_of_find? (of_find?_kept isCallee).2⟩
  intro reaches
  obtain ⟨first, calls, -⟩ := TransGen.head'_iff.1 reaches
  have inOriginal : TransGen table.Calls name name :=
    reaches.lift id fun _ _ calls => (inTable calls).2
  exact (inTable calls).1 (mem_selfReferential_iff.2 inOriginal)

/-- Expanding one body changes that body and nothing else. -/
theorem find?_resolveBody (keyed : table.Keyed) (name other : Text) :
    NameMap.find? (table.resolveBody name) other =
      if name = other then (NameMap.find? table name).map fun definition =>
        { definition with body := table.expand definition.body }
      else NameMap.find? table other := by
  unfold resolveBody
  cases found : NameMap.find? table name with
  | none =>
    by_cases same : name = other
    · rw [if_pos same, ← same, found, Option.map_none]
    · rw [if_neg same]
  | some definition =>
    simp only [MacroTable.define, NameMap.find?_insert, keyed.name_eq found, Option.map_some]

/-- Expanding one body keeps the macros under their names. -/
theorem Keyed.resolveBody (keyed : table.Keyed) (name : Text) :
    (table.resolveBody name).Keyed := by
  unfold MacroTable.resolveBody
  split
  · exact keyed.define _
  · exact keyed

/-- Expanding one body keeps defaults plain. -/
theorem PlainDefaults.resolveBody (plain : table.PlainDefaults) (keyed : table.Keyed)
    (name : Text) : (table.resolveBody name).PlainDefaults := by
  refine plain.of_find? fun other definition found => ?_
  rw [find?_resolveBody keyed] at found
  split at found
  · rename_i same
    rw [Option.map_eq_some_iff] at found
    obtain ⟨original, inTable, rfl⟩ := found
    exact ⟨original, same ▸ inTable, rfl⟩
  · exact ⟨definition, found, rfl⟩

/-- A table in which the bodies of the listed macros are final: each is the expansion of its
original by the table itself. The other macros are as they were. -/
structure Resolved (table : MacroTable) (listed : List Text) (current : MacroTable) : Prop where
  /-- Every macro is entered under its name. -/
  keyed : current.Keyed
  /-- No default calls a macro. -/
  plain : current.PlainDefaults
  /-- Listed macros have expanded bodies. -/
  find?_eq : ∀ name, NameMap.find? current name =
    (NameMap.find? table name).map fun original =>
      if name ∈ listed then { original with body := current.expand original.body } else original

/-- The body of the next macro in a settled order becomes final, and the bodies before it stay
final: none of them calls that macro. -/
theorem Resolved.resolveBody {listed : List Text} (resolved : Resolved table listed current)
    (settled : Settled table.callees listed) (fresh : name ∉ listed)
    (behind : ∀ callee ∈ table.callees name, callee ∈ listed) :
    Resolved table (listed ++ [name]) (current.resolveBody name) := by
  have plain := resolved.plain.resolveBody resolved.keyed name
  refine ⟨resolved.keyed.resolveBody name, plain, fun other => ?_⟩
  -- A body that calls listed macros only is expanded as before.
  have expanded {caller : Text} {original : Macro}
      (found : NameMap.find? table caller = some original)
      (calls : ∀ callee ∈ table.callees caller, callee ∈ listed) :
      current.expand original.body = (current.resolveBody name).expand original.body := by
    refine expand_congr resolved.plain plain fun callee called => ?_
    rw [find?_resolveBody resolved.keyed]
    by_cases same : name = callee
    · subst same
      have absent : NameMap.find? table name = none := by
        refine NameMap.find?_eq_none_iff.2 (Bool.eq_false_iff.2 fun inside => fresh ?_)
        exact calls name (mem_callees.2 ⟨original, found, called, inside⟩)
      rw [if_pos rfl, resolved.find?_eq, absent, Option.map_none, Option.map_none]
    · rw [if_neg same]
  rw [find?_resolveBody resolved.keyed, resolved.find?_eq, resolved.find?_eq]
  by_cases same : name = other
  · subst same
    cases found : NameMap.find? table name with
    | none => rw [if_pos rfl, Option.map_none, Option.map_none, Option.map_none]
    | some original =>
      have last : name ∈ listed ++ [name] := List.mem_append_right _ (List.mem_singleton_self name)
      simp only [if_pos, Option.map_some, if_neg fresh, if_pos last, expanded found behind]
  · have listedBefore : other ∈ listed ++ [name] ↔ other ∈ listed := by
      rw [List.mem_append, List.mem_singleton, or_iff_left fun equal => same equal.symm]
    rw [if_neg same]
    cases found : NameMap.find? table other with
    | none => rfl
    | some original =>
      rw [Option.map_some, Option.map_some]
      by_cases earlier : other ∈ listed
      · rw [if_pos earlier, if_pos (listedBefore.2 earlier),
          expanded found fun callee called => settled.closed earlier called]
      · rw [if_neg earlier, if_neg (mt listedBefore.1 earlier)]

/-- Resolving macros in a settled order makes their bodies final. -/
theorem resolved_foldl (keyed : table.Keyed) (plain : table.PlainDefaults) {listed : List Text}
    (settled : Settled table.callees listed) :
    Resolved table listed (listed.foldl resolveBody table) := by
  induction settled with
  | nil => exact ⟨keyed, plain, fun name => by simp⟩
  | concat before fresh behind ih =>
    rw [List.foldl_append, List.foldl_cons, List.foldl_nil]
    exact ih.resolveBody before fresh behind

/-- Where no macro reaches itself, resolution expands bodies in the order in which the traversal of
the sorted names lists them. -/
theorem resolve_eq_foldl (acyclic : ∀ name, ¬TransGen table.Calls name name) {sorted : List Text}
    (perm : (NameMap.keys table).Perm sorted)
    (ordered : sorted.Pairwise fun left right => Text.atMost left right = true) :
    table.resolve.1 = (sorted.foldl (visit table.callees (NameMap.size table + 1)) []).foldl
      resolveBody table := by
  have order : table.resolve.1 = table.kept.resolutionOrder.foldl resolveBody table.kept := rfl
  rw [order, kept_eq_self (selfReferential_eq_nil acyclic), resolutionOrder,
    Text.sort_eq perm ordered]
  simp only [callGraph_getD]

/-- Resolution makes the bodies of all kept macros final. -/
theorem resolved_resolve (keyed : table.Keyed) (plain : table.PlainDefaults) :
    Resolved table.kept table.kept.resolutionOrder table.resolve.1 :=
  resolved_foldl (keyed.eraseAll table.selfReferential) plain.kept
    (resolutionOrder_settled (kept_acyclic table))

/-- The macros of a resolved table are the kept ones, each with its body expanded by the resolved
table. -/
theorem find?_resolve (keyed : table.Keyed) (plain : table.PlainDefaults) (name : Text) :
    NameMap.find? table.resolve.1 name = (NameMap.find? table.kept name).map fun original =>
      { original with body := table.resolve.1.expand original.body } := by
  rw [(resolved_resolve keyed plain).find?_eq]
  cases found : NameMap.find? table.kept name with
  | none => rfl
  | some original =>
    have inOrder : name ∈ table.kept.resolutionOrder :=
      (mem_resolutionOrder (kept_acyclic table)).2
        (NameMap.contains_iff.1 (NameMap.contains_of_find? found))
    rw [Option.map_some, Option.map_some, if_pos inOrder]

/-- Defaults of a resolved table call nothing if they did not before. -/
theorem plain_resolve (keyed : table.Keyed) (plain : table.PlainDefaults) :
    table.resolve.1.PlainDefaults := (resolved_resolve keyed plain).plain

/-- Resolution keeps what is kept. -/
theorem contains_resolve (keyed : table.Keyed) (plain : table.PlainDefaults) (name : Text) :
    NameMap.contains table.resolve.1 name = NameMap.contains table.kept name := by
  rw [NameMap.contains, find?_resolve keyed plain, Option.isSome_map, NameMap.contains]

/-- Resolution drops exactly the macros that reach themselves and warns of each once, in the order
of their bytes. It expands the bodies of the others in an order in which every macro stands behind
those that it calls. They keep their names and parameters, and the body of each becomes the
expansion of its original by the final table. -/
theorem resolve_complete (keyed : table.Keyed) (plain : table.PlainDefaults) :
    (∀ name, NameMap.contains table.resolve.1 name = true ↔
      NameMap.contains table name = true ∧ ¬TransGen table.Calls name name) ∧
    (∃ dropped : List Text, table.resolve.2 = dropped.map Warning.selfReference ∧
      dropped.Pairwise (fun left right => Utf8.encode left < Utf8.encode right) ∧
      ∀ name, name ∈ dropped ↔ TransGen table.Calls name name) ∧
    (∃ order : List Text, table.resolve.1 = order.foldl resolveBody table.kept ∧
      Settled table.kept.callees order ∧
      ∀ name, name ∈ order ↔ NameMap.contains table.resolve.1 name = true) ∧
    ∀ name original, NameMap.find? table name = some original →
      ¬TransGen table.Calls name name → NameMap.find? table.resolve.1 name =
        some { original with body := table.resolve.1.expand original.body } := by
  refine ⟨fun name => ?_, ?_, ?_, fun name original found survives => ?_⟩
  · rw [contains_resolve keyed plain, NameMap.contains, find?_kept, ← mem_selfReferential_iff]
    by_cases dropped : name ∈ table.selfReferential
    · simp [dropped]
    · simp [dropped, NameMap.contains]
  · exact ⟨table.selfReferential, rfl, selfReferential_pairwise table,
      fun name => mem_selfReferential_iff⟩
  · refine ⟨table.kept.resolutionOrder, rfl, resolutionOrder_settled (kept_acyclic table),
      fun name => ?_⟩
    rw [mem_resolutionOrder (kept_acyclic table), ← NameMap.contains_iff,
      contains_resolve keyed plain]
  · rw [find?_resolve keyed plain, find?_kept, if_neg (mt mem_selfReferential_iff.1 survives),
      found, Option.map_some]

/-- Two macros that call each other, one that hangs off them, and one that calls another twice. -/
def entangled : MacroTable := ofMacros
  [.plain "a".toList "\\b x".toList, .plain "b".toList "\\a\\d".toList,
    .plain "c".toList "\\a".toList, .plain "d".toList "z".toList,
    .withOptional "e".toList 2 "\\it".toList "#1\\d\\d#2".toList]

/-- Of these macros the first two are dropped, and the last one is expanded by the final table. -/
theorem resolve_complete_entangled : entangled.Keyed ∧ entangled.PlainDefaults ∧
    NameMap.contains entangled.resolve.1 "a".toList = false ∧
    Warning.selfReference "b".toList ∈ entangled.resolve.2 ∧
    NameMap.contains entangled.resolve.1 "c".toList = true ∧
    NameMap.find? entangled.resolve.1 "e".toList = some (.withOptional "e".toList 2
      "\\it".toList (entangled.resolve.1.expand "#1\\d\\d#2".toList)) := by
  have keyed : entangled.Keyed := by decide +kernel
  have plain : entangled.PlainDefaults := by decide +kernel
  obtain ⟨survive, ⟨dropped, warned, -, inDropped⟩, -, final⟩ := resolve_complete keyed plain
  have forth : entangled.Calls "a".toList "b".toList := mem_callees.1 (by decide +kernel)
  have back : entangled.Calls "b".toList "a".toList := mem_callees.1 (by decide +kernel)
  have uncalled {name : Text}
      (none : ∀ entry ∈ entangled.entries, name ∉ ControlSequence.names entry.2.body) :
      ¬TransGen entangled.Calls name name := by
    intro reaches
    obtain ⟨caller, -, definition, found, called, -⟩ := TransGen.tail'_iff.1 reaches
    exact none _ (NameMap.find?_eq_some_iff.1 found) called
  refine ⟨keyed, plain, ?_, ?_, ?_, ?_⟩
  · rw [Bool.eq_false_iff, Ne, survive]
    exact fun stays => stays.2 (.tail (.single forth) back)
  · rw [warned]
    exact List.mem_map.2 ⟨_, (inDropped _).2 (.tail (.single back) forth), rfl⟩
  · exact (survive _).2 ⟨by decide +kernel, uncalled (by decide +kernel)⟩
  · exact final _ (.withOptional "e".toList 2 "\\it".toList "#1\\d\\d#2".toList)
      (by decide +kernel) (uncalled (by decide +kernel))

end MacroTable
end TexStatements
