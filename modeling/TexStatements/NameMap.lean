import TexStatements.Text.Basic

/-!
# Maps from names

A finite map from names to values that remembers the order in which its names were first entered.
Entering a name again replaces its value and keeps its place. Declarations, macros, counters and
the records of an extraction are kept in such maps.
-/
namespace TexStatements

/-- A finite map from names, in the order of their first entry. -/
structure NameMap (α : Type) where
  /-- The entries in order. -/
  entries : List (Text × α)
  /-- No name is entered twice. -/
  distinct : (entries.map Prod.fst).Nodup

namespace NameMap

variable {α β : Type}

/-- Value of the first entry of a name. -/
def look (name : Text) : List (Text × α) → Option α
  | [] => none
  | (key, value) :: rest => if key = name then some value else look name rest

/-- Enter a value in place of the entry of its name, or at the end. -/
def put (name : Text) (value : α) : List (Text × α) → List (Text × α)
  | [] => [(name, value)]
  | (key, old) :: rest =>
    if key = name then (key, value) :: rest else (key, old) :: put name value rest

/-- Entering a value adds its name at the end unless it is there. -/
theorem map_fst_put (name : Text) (value : α) (entries : List (Text × α)) :
    (put name value entries).map Prod.fst =
      if name ∈ entries.map Prod.fst then entries.map Prod.fst
      else entries.map Prod.fst ++ [name] := by
  induction entries with
  | nil => simp [put]
  | cons entry rest ih =>
    obtain ⟨key, old⟩ := entry
    rw [put]
    by_cases same : key = name
    · simp [same]
    · rw [if_neg same, List.map_cons, ih]
      simp only [List.map_cons, List.mem_cons]
      by_cases found : name ∈ rest.map Prod.fst
      · simp [found]
      · rw [if_neg found, if_neg]
        · simp
        · rintro (equal | inside)
          · exact same equal.symm
          · exact found inside

/-- The value of a name after an entry. -/
theorem look_put (name other : Text) (value : α) (entries : List (Text × α)) :
    look other (put name value entries) =
      if name = other then some value else look other entries := by
  induction entries with
  | nil => simp [put, look]
  | cons entry rest ih =>
    obtain ⟨key, old⟩ := entry
    by_cases same : key = name
    · subst same
      by_cases equal : key = other <;> simp [put, look, equal]
    · by_cases equal : key = other
      · have different : ¬name = other := fun h => same (equal.trans h.symm)
        rw [put, if_neg same, look, if_pos equal, if_neg different, look, if_pos equal]
      · rw [put, if_neg same, look, if_neg equal, ih, look, if_neg equal]

/-- A name has a value exactly when it is entered. -/
theorem look_isSome_iff (name : Text) (entries : List (Text × α)) :
    (look name entries).isSome = true ↔ name ∈ entries.map Prod.fst := by
  induction entries with
  | nil => simp [look]
  | cons entry rest ih =>
    obtain ⟨key, value⟩ := entry
    by_cases same : key = name
    · simp [look, same]
    · have different : ¬name = key := fun h => same h.symm
      simp [look, same, different, ih]

/-- The map without names. -/
def empty : NameMap α := ⟨[], List.nodup_nil⟩

instance : Inhabited (NameMap α) := ⟨empty⟩
instance : EmptyCollection (NameMap α) := ⟨empty⟩

/-- Number of names. -/
def size (map : NameMap α) : Nat := map.entries.length

/-- The names in order. -/
def keys (map : NameMap α) : List Text := map.entries.map Prod.fst

/-- The values in order of their names. -/
def values (map : NameMap α) : List α := map.entries.map Prod.snd

/-- The value of a name. -/
def find? (map : NameMap α) (name : Text) : Option α := look name map.entries

/-- Whether a name is entered. -/
def contains (map : NameMap α) (name : Text) : Bool := (map.find? name).isSome

/-- Enter a value under a name. -/
def insert (map : NameMap α) (name : Text) (value : α) : NameMap α :=
  ⟨put name value map.entries, by
    rw [map_fst_put]
    split
    · exact map.distinct
    · rename_i absent
      exact List.nodup_append.2 ⟨map.distinct, by simp, by
        intro left inLeft right inRight
        rw [List.mem_singleton] at inRight
        rintro rfl
        exact absent (inRight ▸ inLeft)⟩⟩

/-- Remove a name. -/
def erase (map : NameMap α) (name : Text) : NameMap α :=
  ⟨map.entries.filter fun entry => entry.1 != name,
    (List.filter_sublist.map Prod.fst).nodup map.distinct⟩

/-- Change every value, knowing its name. -/
def mapValues (map : NameMap α) (change : Text → α → β) : NameMap β :=
  ⟨map.entries.map fun (name, value) => (name, change name value), by
    simpa [List.map_map, Function.comp_def] using map.distinct⟩

/-- The map of a list of entries; a later one of the same name replaces the value. -/
def ofList (entries : List (Text × α)) : NameMap α :=
  entries.foldl (fun map (name, value) => map.insert name value) empty

/-- A name is entered exactly when it has a value. -/
theorem contains_iff {map : NameMap α} {name : Text} :
    map.contains name = true ↔ name ∈ map.keys := look_isSome_iff name map.entries

/-- The value of a name after an entry is the entered one for its name alone. -/
theorem find?_insert (map : NameMap α) (name other : Text) (value : α) :
    (map.insert name value).find? other = if name = other then some value else map.find? other :=
  look_put name other value map.entries

/-- The names after an entry. -/
theorem keys_insert (map : NameMap α) (name : Text) (value : α) :
    (map.insert name value).keys = if name ∈ map.keys then map.keys else map.keys ++ [name] :=
  map_fst_put name value map.entries

end NameMap
end TexStatements
