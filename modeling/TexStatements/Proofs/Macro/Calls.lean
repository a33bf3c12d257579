import Mathlib.Logic.Relation
import TexStatements.Macro.Resolution
import TexStatements.Proofs.Macro.Table
import TexStatements.Proofs.Text.Order

/-!
# Calls between macros

A macro calls those of its table that its body names; defaults do not count. Reachability over one
or more calls is what the search through the call graph finds (`contains_reached_iff`), so the self
referential macros of a table are those that reach themselves (`mem_selfReferential_iff`).
-/
namespace TexStatements
namespace MacroTable

open Relation

variable {next : Text → List Text} {more : Nat} {pending : List Text}
  {seen : Std.HashSet Text} {table : MacroTable} {name caller callee : Text}

/-- Whatever is closed under calls, and holds of the names seen and pending, holds of all that the
search adds. -/
theorem explore_sound {property : Text → Prop}
    (closed : ∀ caller, property caller → ∀ callee ∈ next caller, property callee)
    (ofSeen : ∀ name, seen.contains name = true → property name)
    (ofPending : ∀ name ∈ pending, property name) :
    ∀ name, (explore next more pending seen).contains name = true → property name := by
  fun_induction explore next more pending seen with
  | case1 more seen => exact ofSeen
  | case2 more seen first others known ih =>
    exact ih ofSeen fun name mem => ofPending name (List.mem_cons_of_mem _ mem)
  | case3 seen first others fresh => exact ofSeen
  | case4 seen first others fresh more ih =>
    have ofFirst := ofPending first (List.mem_cons_self ..)
    refine ih ?_ ?_
    · intro name mem
      rw [Std.HashSet.contains_insert, Bool.or_eq_true, beq_iff_eq] at mem
      rcases mem with rfl | mem
      · exact ofFirst
      · exact ofSeen name mem
    · intro name mem
      rcases List.mem_append.1 mem with called | later
      · exact closed first ofFirst name called
      · exact ofPending name (List.mem_cons_of_mem _ later)

/-- The names of a list that are not seen. -/
def unseen (domain : List Text) (seen : Std.HashSet Text) : List Text :=
  domain.filter fun name => !seen.contains name

/-- Seeing a name leaves fewer names unseen. -/
theorem length_unseen_insert {domain : List Text} (inside : name ∈ domain)
    (fresh : seen.contains name = false) :
    (unseen domain (seen.insert name)).length < (unseen domain seen).length := by
  have inUnseen : name ∈ unseen domain seen :=
    List.mem_filter.2 ⟨inside, by rw [fresh, Bool.not_false]⟩
  have left : unseen domain (seen.insert name) =
      (unseen domain seen).filter fun other => !(name == other) := by
    rw [unseen, unseen, List.filter_filter]
    congr 1
    funext other
    rw [Std.HashSet.contains_insert, Bool.not_or]
  rw [left]
  exact List.length_filter_lt_length_iff_exists.2 ⟨name, inUnseen, by simp⟩

/-- With room for every name that may be added, the search keeps the names seen, adds the pending
ones and leaves nothing that a name found calls unfound. The callees of the names seen have to be
seen or pending all along. -/
theorem explore_complete {domain : List Text}
    (inside : ∀ caller, ∀ callee ∈ next caller, callee ∈ domain)
    (room : (unseen domain seen).length ≤ more)
    (pendingInside : ∀ name ∈ pending, name ∈ domain)
    (frontier : ∀ caller, seen.contains caller = true → ∀ callee ∈ next caller,
      seen.contains callee = true ∨ callee ∈ pending) :
    (∀ name, seen.contains name = true ∨ name ∈ pending →
      (explore next more pending seen).contains name = true) ∧
    ∀ caller, (explore next more pending seen).contains caller = true →
      ∀ callee ∈ next caller, (explore next more pending seen).contains callee = true := by
  fun_induction explore next more pending seen with
  | case1 more seen =>
    refine ⟨fun name found => found.resolve_right List.not_mem_nil, fun caller found callee mem =>
      (frontier caller found callee mem).resolve_right List.not_mem_nil⟩
  | case2 more seen first others known ih =>
    have passed : ∀ name, seen.contains name = true ∨ name ∈ first :: others →
        seen.contains name = true ∨ name ∈ others := by
      rintro name (before | later)
      · exact .inl before
      · rcases List.mem_cons.1 later with rfl | later
        · exact .inl known
        · exact .inr later
    obtain ⟨found, closed⟩ := ih room
      (fun name mem => pendingInside name (List.mem_cons_of_mem _ mem))
      fun caller mem callee called => passed callee (frontier caller mem callee called)
    exact ⟨fun name mem => found name (passed name mem), closed⟩
  | case3 seen first others fresh =>
    -- There is room for every unseen name, and this one is unseen.
    have less := length_unseen_insert (pendingInside first (List.mem_cons_self ..))
      (Bool.eq_false_iff.2 fresh)
    omega
  | case4 seen first others fresh more ih =>
    have less := length_unseen_insert (pendingInside first (List.mem_cons_self ..))
      (Bool.eq_false_iff.2 fresh)
    have isFirst : (seen.insert first).contains first = true := by
      rw [Std.HashSet.contains_insert, beq_self_eq_true, Bool.true_or]
    have moved : ∀ name, seen.contains name = true ∨ name ∈ first :: others →
        (seen.insert first).contains name = true ∨ name ∈ next first ++ others := by
      rintro name (before | later)
      · refine .inl ?_
        rw [Std.HashSet.contains_insert, before, Bool.or_true]
      · rcases List.mem_cons.1 later with rfl | later
        · exact .inl isFirst
        · exact .inr (List.mem_append_right _ later)
    obtain ⟨found, closed⟩ := ih (by omega)
      (by
        intro name mem
        rcases List.mem_append.1 mem with called | later
        · exact inside first name called
        · exact pendingInside name (List.mem_cons_of_mem _ later))
      (by
        intro caller mem callee called
        rw [Std.HashSet.contains_insert, Bool.or_eq_true, beq_iff_eq] at mem
        rcases mem with rfl | mem
        · exact .inr (List.mem_append_left _ called)
        · exact moved callee (frontier caller mem callee called))
    exact ⟨fun name mem => found name (moved name mem), closed⟩

/-- One macro names another one of its table in its body. -/
def Calls (table : MacroTable) (caller callee : Text) : Prop :=
  ∃ definition, NameMap.find? table caller = some definition ∧
    callee ∈ ControlSequence.names definition.body ∧ NameMap.contains table callee = true

/-- The macros that a macro of the table calls. -/
def callees (table : MacroTable) (name : Text) : List Text :=
  match NameMap.find? table name with
  | some definition => table.calls definition.body
  | none => []

/-- A text calls the macros that it names. -/
@[simp] theorem mem_calls {text : Text} : name ∈ table.calls text ↔
    name ∈ ControlSequence.names text ∧ NameMap.contains table name = true := by
  rw [calls, List.mem_eraseDups, List.mem_filter]

/-- The callees of a macro are what it calls. -/
@[simp] theorem mem_callees : callee ∈ table.callees caller ↔ table.Calls caller callee := by
  unfold callees Calls
  cases NameMap.find? table caller with
  | none => simp
  | some definition => simp

/-- What is called is in the table. -/
theorem Calls.mem_keys (calls : table.Calls caller callee) : callee ∈ NameMap.keys table := by
  obtain ⟨definition, -, -, inside⟩ := calls
  exact NameMap.contains_iff.1 inside

/-- What calls is in the table. -/
theorem Calls.caller_mem_keys (calls : table.Calls caller callee) :
    caller ∈ NameMap.keys table := by
  obtain ⟨definition, found, -⟩ := calls
  exact NameMap.contains_iff.1 (NameMap.contains_of_find? found)

/-- The entries of the call graph have different names. -/
theorem callGraph_distinct (table : MacroTable) :
    (table.entries.map fun (name, definition) => (name, table.calls definition.body)).Pairwise
      fun left right => (left.1 == right.1) = false := by
  rw [List.pairwise_map]
  exact (List.pairwise_map.1 table.distinct).imp fun different => beq_eq_false_iff_ne.2 different

/-- The call graph has every macro with its callees. -/
theorem callGraph_getD (table : MacroTable) (name : Text) :
    table.callGraph.getD name [] = table.callees name := by
  unfold callGraph callees
  cases found : NameMap.find? table name with
  | some definition =>
    have entry := NameMap.find?_eq_some_iff.1 found
    exact Std.HashMap.getD_ofList_of_mem (beq_self_eq_true name) (callGraph_distinct table)
      (List.mem_map.2 ⟨_, entry, rfl⟩)
  | none =>
    have absent : name ∉ NameMap.keys table := by
      rw [← NameMap.contains_iff, NameMap.find?_eq_none_iff.1 found]
      exact Bool.false_ne_true
    refine Std.HashMap.getD_ofList_of_contains_eq_false ?_
    rw [List.map_map, Bool.eq_false_iff, Ne, List.contains_iff_mem]
    exact absent

/-- The call graph has as many names as the table. -/
theorem callGraph_size (table : MacroTable) : table.callGraph.size = NameMap.size table := by
  rw [callGraph, Std.HashMap.size_ofList (callGraph_distinct table), List.length_map, NameMap.size]

/-- The search finds what a macro reaches through one or more calls. -/
theorem contains_reached_iff : (reached table.callGraph caller).contains callee = true ↔
    TransGen table.Calls caller callee := by
  simp only [reached, callGraph_getD, callGraph_size]
  constructor
  · refine explore_sound ?_ (by simp) ?_ callee
    · exact fun middle before later called => before.tail (mem_callees.1 called)
    · exact fun first called => .single (mem_callees.1 called)
  · have room : (unseen (NameMap.keys table) {}).length ≤ NameMap.size table := by
      rw [NameMap.size, ← List.length_map Prod.fst]
      exact List.length_filter_le _ _
    have inside : ∀ caller, ∀ callee ∈ table.callees caller, callee ∈ NameMap.keys table :=
      fun _ _ called => (mem_callees.1 called).mem_keys
    obtain ⟨found, closed⟩ := explore_complete inside room (inside caller) (by simp)
    intro reaches
    induction reaches with
    | single called => exact found _ (.inr (mem_callees.2 called))
    | tail _ called ih => exact closed _ ih _ (mem_callees.2 called)

/-- The self-referential macros are those that reach themselves. -/
theorem mem_selfReferential_iff :
    name ∈ table.selfReferential ↔ TransGen table.Calls name name := by
  rw [selfReferential, List.mem_filter, contains_reached_iff, Text.mem_sort,
    and_iff_right_iff_imp]
  intro reaches
  obtain ⟨first, calls, -⟩ := TransGen.head'_iff.1 reaches
  exact calls.caller_mem_keys

/-- There are no self-referential macros if no macro reaches itself. -/
theorem selfReferential_eq_nil (acyclic : ∀ name, ¬TransGen table.Calls name name) :
    table.selfReferential = [] :=
  List.eq_nil_iff_forall_not_mem.2 fun name mem => acyclic name (mem_selfReferential_iff.1 mem)

/-- Where calls lead upwards no macro reaches itself. -/
theorem acyclic_of_upwards (table : MacroTable) (rank : Text → Nat)
    (upwards : ∀ entry ∈ table.entries, ∀ callee ∈ ControlSequence.names entry.2.body,
      NameMap.contains table callee = true → rank entry.1 < rank callee) (name : Text) :
    ¬TransGen table.Calls name name := by
  have rises {low high : Text} (reaches : TransGen table.Calls low high) :
      rank low < rank high := by
    have step {low high : Text} (calls : table.Calls low high) : rank low < rank high := by
      obtain ⟨definition, found, called, inside⟩ := calls
      exact upwards _ (NameMap.find?_eq_some_iff.1 found) high called inside
    induction reaches with
    | single calls => exact step calls
    | tail _ calls ih => exact Nat.lt_trans ih (step calls)
  exact fun reaches => Nat.lt_irrefl _ (rises reaches)

/-- The self-referential macros are listed in the order of their bytes. -/
theorem selfReferential_pairwise (table : MacroTable) : table.selfReferential.Pairwise
    fun left right => Utf8.encode left < Utf8.encode right :=
  (Text.sort_pairwise table.distinct).filter _

end MacroTable
end TexStatements
