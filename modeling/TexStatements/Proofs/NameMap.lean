import Mathlib.Data.List.Induction
import Mathlib.Data.List.Nodup
import Mathlib.Data.List.Perm.Subperm
import TexStatements.NameMap

/-!
# Looking up names

What is found under a name is the entry of that name, since no name is entered twice. New names are
entered at the end, so that the names of a map made from entries are in the order in which each was
entered first; and removing names leaves the others.
-/
namespace TexStatements

/-- In a list with distinct keys an element is found by its key. -/
theorem find?_of_nodup {α : Type} (key : α → Text) {elements : List α}
    (distinct : (elements.map key).Nodup) {element : α} (mem : element ∈ elements) :
    (elements.find? fun other => key other == key element) = some element := by
  cases found : elements.find? fun other => key other == key element with
  | none =>
    have absent := List.find?_eq_none.1 found element mem
    exact absurd (beq_self_eq_true (key element)) absent
  | some other =>
    have isElement := List.mem_of_find?_eq_some found
    have same : key other = key element := by simpa using List.find?_some found
    rw [List.inj_on_of_nodup_map distinct isElement mem same]

namespace NameMap

variable {α : Type}

/-- Maps with the same entries are the same. -/
theorem eq_of_entries {left right : NameMap α} (same : left.entries = right.entries) :
    left = right := by
  cases left
  cases right
  cases same
  rfl

/-- A new name is entered at the end. -/
theorem put_of_not_mem {name : Text} (value : α) {entries : List (Text × α)}
    (absent : name ∉ entries.map Prod.fst) :
    put name value entries = entries ++ [(name, value)] := by
  induction entries with
  | nil => rfl
  | cons entry rest ih =>
    obtain ⟨key, old⟩ := entry
    rw [List.map_cons, List.mem_cons, not_or] at absent
    have other : key ≠ name := fun same => absent.1 same.symm
    rw [put, if_neg other, ih absent.2, List.cons_append]

/-- Where names are entered once, a name has the value that it is entered with. -/
theorem look_eq_some_iff {name : Text} {value : α} {entries : List (Text × α)}
    (distinct : (entries.map Prod.fst).Nodup) :
    look name entries = some value ↔ (name, value) ∈ entries := by
  induction entries with
  | nil => simp [look]
  | cons entry rest ih =>
    obtain ⟨key, other⟩ := entry
    rw [List.map_cons, List.nodup_cons] at distinct
    by_cases same : key = name
    · subst same
      have absent : (key, value) ∉ rest := fun mem =>
        distinct.1 (List.mem_map.2 ⟨_, mem, rfl⟩)
      simp [look, absent, eq_comm]
    · have different : ¬name = key := fun equal => same equal.symm
      simp [look, same, different, ih distinct.2]

/-- A name has the value that it is entered with. -/
theorem find?_eq_some_iff {map : NameMap α} {name : Text} {value : α} :
    map.find? name = some value ↔ (name, value) ∈ map.entries := look_eq_some_iff map.distinct

/-- A value that is found is one of the values. -/
theorem mem_values_of_find? {map : NameMap α} {name : Text} {value : α}
    (found : map.find? name = some value) : value ∈ map.values :=
  List.mem_map.2 ⟨_, find?_eq_some_iff.1 found, rfl⟩

/-- What holds of the values holds of whatever is found. -/
theorem forall_mem_values {map : NameMap α} {property : α → Prop} :
    (∀ value ∈ map.values, property value) ↔
      ∀ name value, map.find? name = some value → property value := by
  constructor
  · exact fun holds name value found => holds value (mem_values_of_find? found)
  · intro holds value mem
    obtain ⟨⟨name, value⟩, entry, rfl⟩ := List.mem_map.1 mem
    exact holds name value (find?_eq_some_iff.2 entry)

/-- A name that has a value is entered. -/
theorem contains_of_find? {map : NameMap α} {name : Text} {value : α}
    (found : map.find? name = some value) : map.contains name = true := by
  rw [contains, found, Option.isSome_some]

/-- A name is entered unless it has no value. -/
theorem find?_eq_none_iff {map : NameMap α} {name : Text} :
    map.find? name = none ↔ map.contains name = false := by
  rw [contains, Option.isSome_eq_false_iff, Option.isNone_iff_eq_none]

/-- A name is entered exactly if something is found under it. -/
theorem mem_keys_iff {map : NameMap α} {name : Text} :
    name ∈ map.keys ↔ ∃ value, map.find? name = some value := by
  rw [← contains_iff, contains, Option.isSome_iff_exists]

/-- What entries at the end add is found under the names that were not entered before. -/
theorem mem_added_iff {map grown : NameMap α} {added : List (Text × α)}
    (entries : grown.entries = map.entries ++ added) {name : Text} {value : α} :
    (name, value) ∈ added ↔ name ∉ map.keys ∧ grown.find? name = some value := by
  rw [find?_eq_some_iff, entries, List.mem_append]
  constructor
  · intro isNew
    have distinct := grown.distinct
    rw [entries, List.map_append, List.nodup_append'] at distinct
    exact ⟨fun old => distinct.2.2 old (List.mem_map_of_mem isNew), .inr isNew⟩
  · rintro ⟨absent, isOld | isNew⟩
    · exact absurd (List.mem_map_of_mem isOld) absent
    · exact isNew

/-- Changing the values keeps the names. -/
theorem keys_mapValues {β : Type} (map : NameMap α) (change : Text → α → β) :
    (map.mapValues change).keys = map.keys := by
  simp [keys, mapValues, Function.comp_def]

/-- The value of a name, after a change of the values, is its changed value. -/
theorem find?_mapValues {β : Type} (map : NameMap α) (change : Text → α → β) (name : Text) :
    (map.mapValues change).find? name = (map.find? name).map (change name) := by
  have all (entries : List (Text × α)) :
      look name (entries.map fun entry => (entry.1, change entry.1 entry.2)) =
        (look name entries).map (change name) := by
    induction entries with
    | nil => rfl
    | cons entry rest ih =>
      obtain ⟨key, value⟩ := entry
      by_cases same : key = name
      · simp [look, same]
      · simp [look, same, ih]
  exact all map.entries

/-- Removing a name takes its value and no other. -/
theorem find?_erase (map : NameMap α) (name other : Text) :
    (map.erase name).find? other = if name = other then none else map.find? other := by
  by_cases same : name = other
  · rw [if_pos same, find?_eq_none_iff, Bool.eq_false_iff, Ne, contains_iff]
    simp [keys, erase, same]
  · rw [if_neg same]
    apply Option.ext
    intro value
    rw [find?_eq_some_iff, find?_eq_some_iff, erase, List.mem_filter]
    have different : other ≠ name := fun equal => same equal.symm
    simp [different]

/-- Entering a value adds it, unless it takes the place of another. -/
theorem values_put_subperm (name : Text) (value : α) (entries : List (Text × α)) :
    ((put name value entries).map Prod.snd).Subperm (value :: entries.map Prod.snd) := by
  induction entries with
  | nil => exact List.Subperm.refl _
  | cons entry rest ih =>
    obtain ⟨key, old⟩ := entry
    rw [put]
    split
    · exact ((List.sublist_cons_self old _).cons_cons value).subperm
    · exact ((List.subperm_cons old).2 ih).trans (List.Perm.swap value old _).subperm

/-- The values of a map are some of those that were entered, each at most as often. -/
theorem values_ofList_subperm (entries : List (Text × α)) :
    (ofList entries).values.Subperm (entries.map Prod.snd) := by
  have all (entries : List (Text × α)) (map : NameMap α) :
      (entries.foldl (fun map entry => map.insert entry.1 entry.2) map).values.Subperm
        (map.values ++ entries.map Prod.snd) := by
    induction entries generalizing map with
    | nil => simp [List.Subperm.refl]
    | cons entry more ih =>
      refine (ih (map.insert entry.1 entry.2)).trans ?_
      have entered := values_put_subperm entry.1 entry.2 map.entries
      refine ((List.subperm_append_right _).2 entered).trans ?_
      exact List.perm_middle.symm.subperm
  exact all entries empty

/-- A name has the value that was entered last. -/
theorem find?_ofList (entries : List (Text × α)) (name : Text) :
    (ofList entries).find? name =
      (entries.reverse.find? fun entry => entry.1 == name).map Prod.snd := by
  have all (entries : List (Text × α)) (map : NameMap α) :
      (entries.foldl (fun map entry => map.insert entry.1 entry.2) map).find? name =
        ((entries.reverse.find? fun entry => entry.1 == name).map Prod.snd).or
          (map.find? name) := by
    induction entries generalizing map with
    | nil => rfl
    | cons entry more ih =>
      rw [List.foldl_cons, ih, find?_insert, List.reverse_cons, List.find?_append]
      cases more.reverse.find? fun entry => entry.1 == name with
      | some found => rfl
      | none => by_cases same : entry.1 = name <;> simp [same]
  rw [ofList, all]
  exact Option.or_none

/-- Whatever is entered was one of the entries. -/
theorem mem_of_mem_ofList {entries : List (Text × α)} {entry : Text × α}
    (mem : entry ∈ (ofList entries).entries) : entry ∈ entries := by
  obtain ⟨name, value⟩ := entry
  rw [← find?_eq_some_iff, find?_ofList, Option.map_eq_some_iff] at mem
  obtain ⟨⟨key, other⟩, last, rfl⟩ := mem
  have same : key = name := by simpa using List.find?_some last
  rw [← same]
  exact List.mem_reverse.1 (List.mem_of_find?_eq_some last)

/-- The names are those of the entries. -/
theorem mem_keys_ofList {entries : List (Text × α)} {name : Text} :
    name ∈ (ofList entries).keys ↔ name ∈ entries.map Prod.fst := by
  rw [← contains_iff, contains, find?_ofList, Option.isSome_map, List.find?_isSome]
  simp

/-- The last of a list of entries is entered last. -/
theorem ofList_concat (entries : List (Text × α)) (entry : Text × α) :
    ofList (entries ++ [entry]) = (ofList entries).insert entry.1 entry.2 := by
  rw [ofList, List.foldl_append]
  rfl

/-- The entries with one more behind them. -/
theorem entries_ofList_concat (entries : List (Text × α)) (entry : Text × α) :
    (ofList (entries ++ [entry])).entries = put entry.1 entry.2 (ofList entries).entries := by
  rw [ofList_concat]
  rfl

/-- The names are in the order in which they are entered first. -/
theorem keys_ofList_ordered (entries : List (Text × α)) :
    (ofList entries).keys.Pairwise fun earlier later =>
      (entries.map Prod.fst).idxOf earlier < (entries.map Prod.fst).idxOf later := by
  induction entries using List.reverseRecOn with
  | nil => exact List.Pairwise.nil
  | append_singleton entries entry ih =>
    rw [ofList_concat, keys_insert, List.map_append, List.map_singleton]
    -- Another entry at the end leaves the places of the names that were entered.
    have kept {name : Text} (mem : name ∈ (ofList entries).keys) :
        (entries.map Prod.fst ++ [entry.1]).idxOf name = (entries.map Prod.fst).idxOf name :=
      List.idxOf_append_of_mem (mem_keys_ofList.1 mem)
    have ordered := ih.imp_of_mem fun {earlier later} isEarlier isLater less => by
      rwa [← kept isEarlier, ← kept isLater] at less
    split
    · exact ordered
    · rename_i absent
      refine List.pairwise_append.2 ⟨ordered, List.pairwise_singleton _ _, ?_⟩
      intro name mem last isLast
      rw [List.mem_singleton.1 isLast, kept mem,
        List.idxOf_append_of_notMem fun mem => absent (mem_keys_ofList.2 mem)]
      exact Nat.lt_of_lt_of_le (List.idxOf_lt_length_iff.2 (mem_keys_ofList.1 mem))
        (Nat.le_add_right _ _)

/-- Of the entries under some names only, those remain where such a name is entered. -/
theorem put_filter (keep : Text → Bool) (name : Text) (value : α) (entries : List (Text × α)) :
    (put name value entries).filter (fun entry => keep entry.1) =
      if keep name then put name value (entries.filter fun entry => keep entry.1)
      else entries.filter fun entry => keep entry.1 := by
  induction entries with
  | nil => cases wanted : keep name <;> simp [put, wanted]
  | cons entry rest ih =>
    obtain ⟨key, old⟩ := entry
    by_cases same : key = name
    · subst same
      cases wanted : keep key <;> simp [put, wanted]
    · cases wanted : keep name <;> cases other : keep key <;>
        simp_all [put]

/-- Entries under some names only are entered as they are among the others. -/
theorem entries_ofList_filter (keep : Text → Bool) (entries : List (Text × α)) :
    (ofList (entries.filter fun entry => keep entry.1)).entries =
      (ofList entries).entries.filter fun entry => keep entry.1 := by
  induction entries using List.reverseRecOn with
  | nil => rfl
  | append_singleton entries entry ih =>
    rw [entries_ofList_concat, put_filter, ← ih, List.filter_append]
    cases wanted : keep entry.1 with
    | true => rw [List.filter_singleton, wanted, if_pos rfl, cond_true, entries_ofList_concat]
    | false =>
      rw [List.filter_singleton, wanted, if_neg Bool.false_ne_true, cond_false, List.append_nil]

/-- The entries of a map make the map. -/
theorem ofList_entries (map : NameMap α) : ofList map.entries = map := by
  have all (entries : List (Text × α)) (distinct : (entries.map Prod.fst).Nodup) :
      (ofList entries).entries = entries := by
    induction entries using List.reverseRecOn with
    | nil => rfl
    | append_singleton entries entry ih =>
      rw [List.map_append, List.nodup_append'] at distinct
      have absent : entry.1 ∉ entries.map Prod.fst := fun mem =>
        distinct.2.2 mem (List.mem_singleton_self _)
      rw [entries_ofList_concat, ih distinct.1, put_of_not_mem entry.2 absent]
  exact eq_of_entries (all map.entries map.distinct)

end NameMap
end TexStatements
