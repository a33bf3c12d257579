import Mathlib.Data.List.Nodup
import Mathlib.Data.List.Perm.Subperm
import Mathlib.Logic.Relation
import TexStatements.Counter.Forest

/-!
# Ancestry in a counter forest

The parents of a forest make a relation between counters. Ancestors are found by following parents
and descendants by following child lists, each for as many steps as there are edges. When the
relation has no cycle that is enough for the whole ancestry, because a counter is passed at most
once; and when the child lists mirror the parents, the two searches agree.
-/
namespace TexStatements
namespace CounterForest

/-- A counter has another one as its parent. -/
def HasParent (forest : CounterForest) (child parent : Text) : Prop :=
  forest.parents.find? child = some parent

/-- A counter lies below another one, by one edge or more. -/
def Below (forest : CounterForest) : Text → Text → Prop := Relation.TransGen forest.HasParent

/-- No counter lies below itself. -/
def Acyclic (forest : CounterForest) : Prop := ∀ counter, ¬forest.Below counter counter

/-- The counter that so many parents lead to, if there are so many. -/
def climb (forest : CounterForest) : Nat → Text → Option Text
  | 0, counter => some counter
  | steps + 1, counter => (forest.parents.find? counter).bind (forest.climb steps)

variable {forest : CounterForest}

/-- Climbing one step more may be done at the end. -/
theorem climb_succ (forest : CounterForest) (steps : Nat) (counter : Text) :
    forest.climb (steps + 1) counter =
      (forest.climb steps counter).bind fun reached => forest.parents.find? reached := by
  induction steps generalizing counter with
  | zero => cases forest.parents.find? counter <;> simp [climb, *]
  | succ steps ih =>
    rw [climb]
    cases found : forest.parents.find? counter with
    | none => simp [climb, found]
    | some parent =>
      rw [Option.bind_some, ih parent]
      simp [climb, found]

/-- Climbing in two stretches is climbing once. -/
theorem climb_add (forest : CounterForest) (first second : Nat) (counter : Text) :
    forest.climb (first + second) counter =
      (forest.climb first counter).bind (forest.climb second) := by
  induction first generalizing counter with
  | zero => simp [climb]
  | succ first ih =>
    rw [Nat.succ_add, climb, climb]
    cases forest.parents.find? counter with
    | none => rfl
    | some parent => simp [ih]

/-- A counter lies below another exactly when climbing leads from it to the other. -/
theorem below_iff_climb {low high : Text} :
    forest.Below low high ↔ ∃ steps, forest.climb (steps + 1) low = some high := by
  constructor
  · intro below
    induction below with
    | single edge => exact ⟨0, by simp only [HasParent] at edge; simp [climb, edge]⟩
    | tail _ edge ih =>
      obtain ⟨steps, reached⟩ := ih
      refine ⟨steps + 1, ?_⟩
      rw [climb_succ, reached]
      exact edge
  · rintro ⟨steps, reached⟩
    induction steps generalizing high with
    | zero =>
      rw [climb_succ] at reached
      exact .single reached
    | succ steps ih =>
      rw [climb_succ, Option.bind_eq_some_iff] at reached
      obtain ⟨middle, before, edge⟩ := reached
      exact (ih before).tail edge

/-- In a forest without cycles a climb passes different counters, all with a parent, so it is no
longer than there are edges. -/
theorem Acyclic.climb_bound (acyclic : forest.Acyclic) {low high : Text} {steps : Nat}
    (reached : forest.climb (steps + 1) low = some high) : steps < forest.parents.size := by
  have passed (index : Nat) (inside : index ≤ steps) :
      ∃ counter, forest.climb index low = some counter ∧ counter ∈ forest.parents.keys := by
    have whole : forest.climb (index + (steps - index + 1)) low = some high := by
      rw [← reached]
      congr 1
      omega
    rw [climb_add, Option.bind_eq_some_iff] at whole
    obtain ⟨counter, here, further⟩ := whole
    refine ⟨counter, here, NameMap.contains_iff.1 ?_⟩
    rw [climb, Option.bind_eq_some_iff] at further
    obtain ⟨parent, edge, -⟩ := further
    simp [NameMap.contains, edge]
  let path := (List.range (steps + 1)).map fun index => (forest.climb index low).getD []
  have different : path.Nodup := by
    refine List.Nodup.map_on ?_ List.nodup_range
    -- Meeting one counter twice would mean that it lies below itself.
    have never (first gap : Nat) (inside : first + (gap + 1) ≤ steps) :
        (forest.climb first low).getD [] ≠ (forest.climb (first + (gap + 1)) low).getD [] := by
      obtain ⟨counter, here, -⟩ := passed first (by omega)
      obtain ⟨later, there, -⟩ := passed _ inside
      rw [here, there]
      rintro (rfl : counter = later)
      rw [climb_add, here] at there
      exact acyclic counter (below_iff_climb.2 ⟨gap, there⟩)
    intro left inLeft right inRight same
    rw [List.mem_range] at inLeft inRight
    rcases Nat.lt_trichotomy left right with less | equal | more
    · obtain ⟨gap, rfl⟩ := Nat.exists_eq_add_of_lt less
      exact absurd same (never left gap (by omega))
    · exact equal
    · obtain ⟨gap, rfl⟩ := Nat.exists_eq_add_of_lt more
      exact absurd same.symm (never right gap (by omega))
  have entered : path ⊆ forest.parents.keys := by
    intro counter inPath
    obtain ⟨index, inRange, rfl⟩ := List.mem_map.1 inPath
    rw [List.mem_range] at inRange
    obtain ⟨found, here, known⟩ := passed index (by omega)
    simpa [here] using known
  have bound := (different.subperm entered).length_le
  simp only [path, List.length_map, List.length_range, NameMap.keys] at bound
  simp only [NameMap.size]
  omega

/-- Following parents for a number of steps finds what so many climbs find. -/
theorem mem_ancestorsWithin {steps : Nat} {low high : Text} :
    high ∈ forest.ancestorsWithin steps low ↔
      ∃ index < steps, forest.climb (index + 1) low = some high := by
  induction steps generalizing low with
  | zero => simp [ancestorsWithin]
  | succ steps ih =>
    rw [ancestorsWithin]
    cases found : forest.parents.find? low with
    | none => simp [climb, found]
    | some parent =>
      simp only [List.mem_cons, ih]
      constructor
      · rintro (rfl | ⟨index, inside, reached⟩)
        · exact ⟨0, by omega, by simp [climb, found]⟩
        · exact ⟨index + 1, by omega, by rw [climb, found]; exact reached⟩
      · rintro ⟨index, inside, reached⟩
        cases index with
        | zero => exact .inl (by simpa [climb, found] using reached.symm)
        | succ index =>
          rw [climb, found] at reached
          exact .inr ⟨index, by omega, reached⟩

/-- Without cycles the ancestors of a counter are all counters that it lies below. -/
theorem Acyclic.mem_ancestors_iff (acyclic : forest.Acyclic) {low high : Text} :
    high ∈ forest.ancestors low ↔ forest.Below low high := by
  rw [ancestors, mem_ancestorsWithin, below_iff_climb]
  constructor
  · rintro ⟨index, -, reached⟩
    exact ⟨index, reached⟩
  · rintro ⟨index, reached⟩
    exact ⟨index, acyclic.climb_bound reached, reached⟩

/-- A forest whose edges, which are stored both as parents and as child lists, are those of a
forest and say the same in both places. -/
structure WellLinked (forest : CounterForest) : Prop where
  /-- The parents have no cycle. -/
  acyclic : forest.Acyclic
  /-- The child lists mirror the parents. -/
  mem_childrenOf : ∀ {child parent},
    child ∈ forest.childrenOf parent ↔ forest.HasParent child parent
  /-- No child is listed twice. -/
  nodup : ∀ parent, (forest.childrenOf parent).Nodup

/-- Following child lists for a number of edges finds what is so many climbs below. -/
theorem WellLinked.mem_descendantsWithin (linked : forest.WellLinked) {depth : Nat}
    {low high : Text} :
    low ∈ forest.descendantsWithin depth high ↔
      ∃ index < depth, forest.climb (index + 1) low = some high := by
  induction depth generalizing high with
  | zero => simp [descendantsWithin]
  | succ depth ih =>
    simp only [descendantsWithin, List.mem_flatMap, List.mem_cons, ih, linked.mem_childrenOf]
    constructor
    · rintro ⟨child, edge, rfl | ⟨index, inside, reached⟩⟩
      · exact ⟨0, by omega, by rw [climb_succ]; exact edge⟩
      · exact ⟨index + 1, by omega, by rw [climb_succ, reached]; exact edge⟩
    · rintro ⟨index, inside, reached⟩
      rw [climb_succ, Option.bind_eq_some_iff] at reached
      obtain ⟨child, before, edge⟩ := reached
      cases index with
      | zero => exact ⟨child, edge, .inl (by simpa [climb] using before)⟩
      | succ index => exact ⟨child, edge, .inr ⟨index, by omega, before⟩⟩

/-- The two searches for ancestry agree. -/
theorem WellLinked.mem_descendants_iff (linked : forest.WellLinked) {low high : Text} :
    low ∈ forest.descendants high ↔ high ∈ forest.ancestors low := by
  rw [descendants, linked.mem_descendantsWithin, ancestors, mem_ancestorsWithin]

end CounterForest
end TexStatements
