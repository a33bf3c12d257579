import Mathlib.Data.List.Perm.Subperm
import TexStatements.Proofs.Macro.Calls

/-!
# The order of resolution

Macros are resolved behind those that they call. A list of names is settled if each of its names
stands once and behind all its callees. Where no macro reaches itself, the order of resolution is
such a list of all names of the table (`resolutionOrder_settled`, `mem_resolutionOrder`). How deep
the traversal goes is bounded along the path to where it is: the names on it are different.
-/
namespace TexStatements
namespace MacroTable

open Relation

variable {next : Text → List Text} {table : MacroTable} {name caller callee : Text}

/-- A list in which every name stands once and behind its callees. -/
inductive Settled (next : Text → List Text) : List Text → Prop
  /-- No name is listed. -/
  | nil : Settled next []
  /-- A name is listed behind its callees. -/
  | concat {listed : List Text} {name : Text} (before : Settled next listed)
      (fresh : name ∉ listed) (behind : ∀ callee ∈ next name, callee ∈ listed) :
      Settled next (listed ++ [name])

/-- The callees of a listed name are listed. -/
theorem Settled.closed {listed : List Text} (settled : Settled next listed)
    (mem : caller ∈ listed) (called : callee ∈ next caller) : callee ∈ listed := by
  induction settled with
  | nil => cases mem
  | concat before fresh behind ih =>
    rw [List.mem_append, List.mem_singleton] at mem
    rcases mem with earlier | rfl
    · exact List.mem_append_left _ (ih earlier)
    · exact List.mem_append_left _ (behind callee called)

/-- What a listed name reaches is listed. -/
theorem Settled.mem_of_reached {listed : List Text} (settled : Settled next listed)
    (mem : caller ∈ listed)
    (path : ReflTransGen (fun caller callee => callee ∈ next caller) caller name) :
    name ∈ listed := by
  induction path with
  | refl => exact mem
  | tail _ called ih => exact settled.closed ih called

/-- No listed name reaches itself. -/
theorem Settled.acyclic {listed : List Text} (settled : Settled next listed)
    (mem : name ∈ listed) :
    ¬TransGen (fun caller callee => callee ∈ next caller) name name := by
  induction settled with
  | nil => cases mem
  | concat before fresh behind ih =>
    rw [List.mem_append, List.mem_singleton] at mem
    rcases mem with earlier | rfl
    · exact ih earlier
    · intro cycle
      obtain ⟨callee, called, path⟩ := TransGen.head'_iff.1 cycle
      exact fresh (before.mem_of_reached (behind callee called) path)

/-- A settled list has different names. -/
theorem Settled.nodup {listed : List Text} (settled : Settled next listed) : listed.Nodup := by
  induction settled with
  | nil => exact List.nodup_nil
  | concat before fresh behind ih =>
    refine List.nodup_append.2 ⟨ih, List.pairwise_singleton _ _, ?_⟩
    rintro other inside _ isLast rfl
    exact fresh (List.mem_singleton.1 isLast ▸ inside)

/-- The callees of a listed name stand before it. -/
theorem Settled.behind {before after : List Text} (settled : Settled next (before ++ name :: after))
    (called : callee ∈ next name) : callee ∈ before := by
  generalize whole : before ++ name :: after = listed at settled
  induction settled generalizing after with
  | nil => simp at whole
  | @concat listed last earlier fresh behind ih =>
    rcases List.eq_nil_or_concat after with rfl | ⟨more, other, rfl⟩
    · obtain ⟨rfl, rfl⟩ : before = listed ∧ name = last := by simpa using whole
      exact behind callee called
    · rw [List.concat_eq_append, ← List.cons_append, ← List.append_assoc] at whole
      exact ih (List.append_inj_left' whole rfl)

/-- What a list of names becomes when some names are listed: it stays settled, keeps its names and
gets those, and nothing that is not reached from them. -/
structure Listing (next : Text → List Text) (names before after : List Text) : Prop where
  /-- The names are settled. -/
  settled : Settled next after
  /-- Listed names stay. -/
  kept : ∀ other ∈ before, other ∈ after
  /-- The names are listed. -/
  listed : ∀ name ∈ names, name ∈ after
  /-- Only what the names reach is listed. -/
  reached : ∀ other ∈ after,
    other ∈ before ∨
      ∃ name ∈ names, ReflTransGen (fun caller callee => callee ∈ next caller) name other

/-- Listing no name changes nothing. -/
theorem Listing.nil {listed : List Text} (settled : Settled next listed) :
    Listing next [] listed listed :=
  ⟨settled, fun _ mem => mem, nofun, fun _ mem => .inl mem⟩

/-- A name and then others are listed. -/
theorem Listing.cons {first : Text} {names before middle after : List Text}
    (one : Listing next [first] before middle) (rest : Listing next names middle after) :
    Listing next (first :: names) before after := by
  refine ⟨rest.settled, fun other mem => rest.kept other (one.kept other mem), ?_, ?_⟩
  · intro name mem
    rcases List.mem_cons.1 mem with rfl | later
    · exact rest.kept name (one.listed name (List.mem_singleton_self name))
    · exact rest.listed name later
  · intro other mem
    rcases rest.reached other mem with earlier | ⟨name, later, path⟩
    · rcases one.reached other earlier with known | ⟨name, isFirst, path⟩
      · exact .inl known
      · rw [List.mem_singleton] at isFirst
        subst isFirst
        exact .inr ⟨name, List.mem_cons_self .., path⟩
    · exact .inr ⟨name, List.mem_cons_of_mem _ later, path⟩

/-- A name that is listed needs no listing. -/
theorem Listing.of_mem {listed : List Text} (settled : Settled next listed) (mem : name ∈ listed) :
    Listing next [name] listed listed := by
  refine ⟨settled, fun _ mem => mem, ?_, fun _ mem => .inl mem⟩
  intro other isName
  rwa [List.mem_singleton.1 isName]

/-- Behind its callees a name is listed. -/
theorem Listing.concat {before after : List Text}
    (callees : Listing next (next name) before after) (fresh : name ∉ after) :
    Listing next [name] before (after ++ [name]) := by
  refine ⟨callees.settled.concat fresh callees.listed, ?_, ?_, ?_⟩
  · exact fun other mem => List.mem_append_left _ (callees.kept other mem)
  · exact fun other mem => List.mem_append_right _ mem
  · intro other mem
    rcases List.mem_append.1 mem with earlier | last
    · rcases callees.reached other earlier with older | ⟨callee, called, path⟩
      · exact .inl older
      · exact .inr ⟨name, List.mem_singleton_self name, .head called path⟩
    · rw [List.mem_singleton] at last
      exact .inr ⟨name, List.mem_singleton_self name, last ▸ .refl⟩

/-- Names are listed one after another. -/
theorem listing_foldl {step : List Text → Text → List Text} {names before : List Text}
    (settled : Settled next before)
    (each : ∀ name ∈ names, ∀ listed, Settled next listed →
      Listing next [name] listed (step listed name)) :
    Listing next names before (names.foldl step before) := by
  induction names generalizing before with
  | nil => exact .nil settled
  | cons first names ih =>
    have one := each first (List.mem_cons_self ..) before settled
    exact one.cons (ih one.settled fun name mem => each name (List.mem_cons_of_mem _ mem))

/-- A name is listed behind its callees. The names on the path to it are different and lead to it,
so that the depth does not run out before the names of the domain do. -/
theorem listing_visit {domain : List Text}
    (acyclic : ∀ name, ¬TransGen (fun caller callee => callee ∈ next caller) name name)
    (inside : ∀ caller, ∀ callee ∈ next caller, callee ∈ domain) {depth : Nat}
    {path before : List Text} (distinct : path.Nodup) (onPath : ∀ other ∈ path, other ∈ domain)
    (leads : ∀ other ∈ path, TransGen (fun caller callee => callee ∈ next caller) other name)
    (deep : domain.length < depth + path.length) (inDomain : name ∈ domain)
    (settled : Settled next before) :
    Listing next [name] before (visit next depth before name) := by
  induction depth generalizing name path before with
  | zero =>
    have short := (List.Nodup.subperm distinct onPath).length_le
    omega
  | succ depth ih =>
    rw [visit]
    by_cases known : name ∈ before
    · rw [if_pos (List.contains_iff_mem.2 known)]
      exact .of_mem settled known
    · rw [if_neg fun isKnown => known (List.contains_iff_mem.1 isKnown)]
      have offPath : name ∉ path := fun mem => acyclic name (leads name mem)
      have callees : Listing next (next name) before
          ((next name).foldl (visit next depth) before) := by
        refine listing_foldl settled fun callee called listed settled => ?_
        refine ih (List.nodup_cons.2 ⟨offPath, distinct⟩) ?_ ?_ ?_ (inside name callee called)
          settled
        · exact List.forall_mem_cons.2 ⟨inDomain, onPath⟩
        · exact List.forall_mem_cons.2
            ⟨.single called, fun other mem => (leads other mem).tail called⟩
        · rw [List.length_cons]
          omega
      -- Its callees have not listed the name: it would reach itself through them.
      have fresh : name ∉ (next name).foldl (visit next depth) before := by
        intro mem
        rcases callees.reached name mem with earlier | ⟨callee, called, path⟩
        · exact known earlier
        · exact acyclic name (TransGen.head' called path)
      exact callees.concat fresh

/-- The order of resolution lists the names of a table in which no macro reaches itself. -/
theorem listing_resolutionOrder (acyclic : ∀ name, ¬TransGen table.Calls name name) :
    Listing table.callees (Text.sort (NameMap.keys table)) [] table.resolutionOrder := by
  have calls : (fun caller callee => callee ∈ table.callees caller) = table.Calls := by
    funext caller callee
    exact propext mem_callees
  simp only [resolutionOrder, callGraph_getD]
  refine listing_foldl .nil fun name mem listed settled => ?_
  refine listing_visit (by rwa [calls])
    (fun _ _ called => (mem_callees.1 called).mem_keys) List.nodup_nil nofun nofun ?_
    (Text.mem_sort.1 mem) settled
  rw [NameMap.keys, List.length_map, NameMap.size]
  exact Nat.lt_succ_self _

/-- Every macro is resolved once, and behind those that it calls. -/
theorem resolutionOrder_settled (acyclic : ∀ name, ¬TransGen table.Calls name name) :
    Settled table.callees table.resolutionOrder := (listing_resolutionOrder acyclic).settled

/-- The macros that are resolved are those of the table. -/
theorem mem_resolutionOrder (acyclic : ∀ name, ¬TransGen table.Calls name name) :
    name ∈ table.resolutionOrder ↔ name ∈ NameMap.keys table := by
  have listing := listing_resolutionOrder acyclic
  constructor
  · intro mem
    rcases listing.reached name mem with none | ⟨first, inTable, path⟩
    · cases none
    · rcases ReflTransGen.cases_tail path with same | ⟨caller, -, called⟩
      · rw [same]
        exact Text.mem_sort.1 inTable
      · exact (mem_callees.1 called).mem_keys
  · exact fun mem => listing.listed name (Text.mem_sort.2 mem)

end MacroTable
end TexStatements
