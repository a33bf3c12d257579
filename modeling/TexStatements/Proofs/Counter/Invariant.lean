import TexStatements.Proofs.Counter.Ancestry
import TexStatements.Proofs.NameMap

/-!
# The invariant of counter forests

Every operation on a counter forest keeps its links well: parents have no cycle and child lists
mirror them. Only a new edge touches the links. It is refused where it would close a cycle, and
otherwise the counter is taken out of the list of its old parent before it enters that of the new
one. Stepping a counter therefore resets exactly the counters below it.
-/
namespace TexStatements

/-- The map without names has no values. -/
@[simp] theorem NameMap.find?_empty {α : Type} (name : Text) :
    (NameMap.empty : NameMap α).find? name = none := rfl

namespace CounterForest

variable {forest next : CounterForest}

/-- Links that are the same are kept as well. -/
theorem WellLinked.congr (linked : forest.WellLinked) (parents : next.parents = forest.parents)
    (children : next.children = forest.children) : next.WellLinked := by
  have edges : next.HasParent = forest.HasParent := by
    funext child parent
    rw [HasParent, HasParent, parents]
  have lists : next.childrenOf = forest.childrenOf := by
    funext parent
    rw [childrenOf, childrenOf, children]
  constructor
  · unfold Acyclic Below
    rw [edges]
    exact linked.acyclic
  · intro child parent
    rw [edges, lists]
    exact linked.mem_childrenOf
  · intro parent
    rw [lists]
    exact linked.nodup parent

/-- A new forest has no links, and they are kept well. -/
theorem wellLinked_new : new.WellLinked := by
  have none {child parent : Text} : ¬new.HasParent child parent := by
    simp [HasParent, new]
  have empty (parent : Text) : new.childrenOf parent = [] := by
    simp [childrenOf, new]
  constructor
  · intro counter below
    cases Relation.TransGen.head'_iff.1 below with
    | intro _ step => exact none step.1
  · intro child parent
    simp [empty, none]
  · intro parent
    simp [empty]

section Fields

variable (forest : CounterForest) (counter child parent : Text) (declaration : Declaration)

/-- Entering a counter gives it no parent. -/
@[simp] theorem parents_ensure : (forest.ensure counter).parents = forest.parents := by
  unfold ensure; split <;> rfl

/-- Entering a counter gives it no children. -/
@[simp] theorem children_ensure : (forest.ensure counter).children = forest.children := by
  unfold ensure; split <;> rfl

/-- Entering a counter is no reason to warn. -/
@[simp] theorem warnings_ensure : (forest.ensure counter).warnings = forest.warnings := by
  unfold ensure; split <;> rfl

/-- Entering a counter leaves the environments as they are. -/
@[simp] theorem environments_ensure :
    (forest.ensure counter).environments = forest.environments := by
  unfold ensure; split <;> rfl

/-- Numbering within a parent leaves the environments as they are. -/
@[simp] theorem environments_numberWithin :
    (forest.numberWithin child parent).1.environments = forest.environments := by
  unfold numberWithin; dsimp only; split <;> simp

/-- A declaration enters its environment and no other. -/
@[simp] theorem environments_define : (forest.define declaration).environments =
    forest.environments.insert declaration.name declaration := by
  unfold define; cases declaration.within? <;> simp

/-- How a forest writes headings: the order of caption and number, whether it writes letters, and
for which counters. -/
def flags (forest : CounterForest) : Bool × Bool × List Text :=
  (forest.swapped, forest.inAppendix, forest.alphaRoots)

/-- Entering a counter changes nothing about headings. -/
@[simp] theorem flags_ensure : (forest.ensure counter).flags = forest.flags := by
  unfold ensure; split <;> rfl

/-- Numbering within a parent changes nothing about headings. -/
@[simp] theorem flags_numberWithin :
    (forest.numberWithin child parent).1.flags = forest.flags := by
  rw [← flags_ensure forest child, ← flags_ensure (forest.ensure child) parent]
  unfold numberWithin; dsimp only; split <;> rfl

/-- A declaration changes nothing about headings. -/
@[simp] theorem flags_define : (forest.define declaration).flags = forest.flags := by
  rw [← flags_ensure forest declaration.counter]
  unfold define
  cases declaration.within? with
  | none => rfl
  | some parent => exact flags_numberWithin _ _ _

/-- A step leaves the parents as they are. -/
@[simp] theorem parents_increment : (forest.increment counter).parents = forest.parents := rfl

end Fields

/-- Entering a counter leaves every value as it is. -/
@[simp] theorem value_ensure (forest : CounterForest) (counter other : Text) :
    (forest.ensure counter).value other = forest.value other := by
  unfold ensure
  split
  · rfl
  · rename_i absent
    simp only [value, NameMap.find?_insert]
    split
    · rename_i same
      subst same
      cases found : forest.values.find? counter with
      | none => rfl
      | some old => simp [NameMap.contains, found] at absent
    · rfl

/-- An edge leaves every value as it is, whether it is taken or refused. -/
@[simp] theorem value_numberWithin (forest : CounterForest) (child parent other : Text) :
    (forest.numberWithin child parent).1.value other = forest.value other := by
  rw [← value_ensure forest child, ← value_ensure (forest.ensure child) parent]
  unfold numberWithin; dsimp only; split <;> rfl

/-- Registering an environment leaves every value as it is. -/
@[simp] theorem value_define (forest : CounterForest) (declaration : Declaration)
    (other : Text) : (forest.define declaration).value other = forest.value other := by
  rw [← value_ensure forest declaration.counter]
  unfold define
  cases declaration.within? with
  | none => rfl
  | some parent => exact value_numberWithin _ _ _ _

/-- Registering an environment that names no parent leaves the parents as they are. -/
theorem parents_define_of_none (forest : CounterForest) {declaration : Declaration}
    (orphan : declaration.within? = none) :
    (forest.define declaration).parents = forest.parents := by
  simp [define, orphan]

section Ensure

variable (forest : CounterForest) (environment : Text)

/-- Registering an environment that was not declared adds no edge. -/
theorem parents_ensureEnvironment :
    (forest.ensureEnvironment environment).parents = forest.parents := by
  unfold ensureEnvironment
  split
  · rfl
  · exact parents_define_of_none forest rfl

/-- Registering an environment that was not declared leaves every value as it is. -/
theorem value_ensureEnvironment (other : Text) :
    (forest.ensureEnvironment environment).value other = forest.value other := by
  unfold ensureEnvironment
  split
  · rfl
  · exact value_define forest _ other

/-- Registering an environment does not change how headings are written. -/
theorem flags_ensureEnvironment :
    (forest.ensureEnvironment environment).flags = forest.flags := by
  unfold ensureEnvironment
  split
  · rfl
  · exact flags_define forest _

/-- An environment is registered with the declaration that it was taken to have. -/
theorem declarationOf_ensureEnvironment (other : Text) :
    (forest.ensureEnvironment environment).declarationOf other = forest.declarationOf other := by
  unfold ensureEnvironment
  split
  · rfl
  · rename_i absent
    rw [Bool.not_eq_true, ← NameMap.find?_eq_none_iff] at absent
    rw [declarationOf, declarationOf, environments_define, NameMap.find?_insert]
    split
    · rename_i same
      change environment = other at same
      rw [← same, absent]
      rfl
    · rfl

end Ensure

/-- Ancestors depend on the parents alone. -/
theorem ancestors_congr (parents : next.parents = forest.parents) (counter : Text) :
    next.ancestors counter = forest.ancestors counter := by
  have within (steps : Nat) (start : Text) :
      next.ancestorsWithin steps start = forest.ancestorsWithin steps start := by
    induction steps generalizing start with
    | zero => rfl
    | succ steps ih => simp [ancestorsWithin, parents, ih]
  rw [ancestors, ancestors, parents, within]

/-- The counters that a map lists as children. -/
def listed (children : NameMap (List Text)) (parent : Text) : List Text :=
  (children.find? parent).getD []

/-- Detaching takes a counter out of the list of its old parent only. -/
theorem listed_detach (children : NameMap (List Text)) (child : Text) (old? : Option Text)
    (parent : Text) : listed (detach children child old?) parent =
      if old? = some parent then (listed children parent).filter (· != child)
      else listed children parent := by
  cases old? with
  | none => simp [detach]
  | some old =>
    simp only [detach, listed, Option.some.injEq]
    cases found : children.find? old with
    | none =>
      by_cases same : old = parent
      · subst same
        simp [found]
      · simp [same]
    | some siblings =>
      rw [NameMap.find?_insert]
      by_cases same : old = parent
      · subst same
        simp [found]
      · simp [same]

/-- Attaching a counter that is not listed puts it at the end of the list of its parent. -/
theorem listed_attach {children : NameMap (List Text)} {child parent : Text}
    (absent : child ∉ listed children parent) (other : Text) :
    listed (attach children child parent) other =
      if parent = other then listed children other ++ [child] else listed children other := by
  unfold listed at absent
  simp only [attach, listed, NameMap.find?_insert]
  split
  · rename_i same
    subst same
    simp [absent]
  · rfl

/-- The parents of a forest in which a counter was given a parent. -/
theorem hasParent_insert {child parent : Text}
    (inserted : next.parents = forest.parents.insert child parent) {low high : Text} :
    next.HasParent low high ↔
      if child = low then parent = high else forest.HasParent low high := by
  rw [HasParent, inserted, NameMap.find?_insert]
  split
  · exact Option.some_inj
  · rfl

/-- Giving a counter a parent that is neither it nor below it closes no cycle. -/
theorem Acyclic.insert (acyclic : forest.Acyclic) {child parent : Text}
    (inserted : next.parents = forest.parents.insert child parent) (apart : child ≠ parent)
    (notAbove : ¬forest.Below parent child) : next.Acyclic := by
  -- From the parent on the new edge is never met, so every counter above it was above it before.
  have above {high : Text} (below : next.Below parent high) :
      forest.Below parent high ∧ high ≠ child := by
    induction below with
    | single edge =>
      rw [hasParent_insert inserted, if_neg apart] at edge
      refine ⟨.single edge, ?_⟩
      rintro rfl
      exact notAbove (.single edge)
    | tail _ edge ih =>
      rw [hasParent_insert inserted, if_neg ih.2.symm] at edge
      refine ⟨ih.1.tail edge, ?_⟩
      rintro rfl
      exact notAbove (ih.1.tail edge)
  have old {low high : Text} (below : next.Below low high) :
      forest.Below low high ∨
        Relation.ReflTransGen next.HasParent low child ∧
          Relation.ReflTransGen next.HasParent parent high := by
    induction below with
    | single edge =>
      by_cases same : child = low
      · rw [hasParent_insert inserted, if_pos same] at edge
        exact .inr ⟨same ▸ .refl, edge ▸ .refl⟩
      · rw [hasParent_insert inserted, if_neg same] at edge
        exact .inl (.single edge)
    | @tail middle high before edge ih =>
      rcases ih with below | ⟨down, up⟩
      · by_cases same : child = middle
        · rw [hasParent_insert inserted, if_pos same] at edge
          exact .inr ⟨same ▸ Relation.TransGen.to_reflTransGen before, edge ▸ .refl⟩
        · rw [hasParent_insert inserted, if_neg same] at edge
          exact .inl (below.tail edge)
      · exact .inr ⟨down, up.tail edge⟩
  intro counter below
  rcases old below with before | ⟨down, up⟩
  · exact acyclic counter before
  · rcases Relation.reflTransGen_iff_eq_or_transGen.1 (up.trans down) with same | cycle
    · exact apart same
    · exact (above cycle).2 rfl

/-- Once a counter is detached from its parent the lists hold the other counters only. -/
theorem WellLinked.mem_listed_detach (linked : forest.WellLinked) {child low high : Text} :
    low ∈ listed (detach forest.children child (forest.parents.find? child)) high ↔
      low ≠ child ∧ forest.HasParent low high := by
  have edges : low ∈ listed forest.children high ↔ forest.HasParent low high :=
    linked.mem_childrenOf
  rw [listed_detach]
  split
  · simp only [List.mem_filter, edges, bne_iff_ne, and_comm]
  · rename_i different
    rw [edges]
    refine ⟨fun edge => ⟨?_, edge⟩, And.right⟩
    rintro rfl
    exact different edge

/-- Detaching a counter keeps every list free of repetitions. -/
theorem WellLinked.nodup_listed_detach (linked : forest.WellLinked) (child high : Text) :
    (listed (detach forest.children child (forest.parents.find? child)) high).Nodup := by
  rw [listed_detach]
  split
  · exact (linked.nodup high).filter _
  · exact linked.nodup high

/-- An edge keeps the links well, whether it is taken or refused. -/
theorem WellLinked.numberWithin (linked : forest.WellLinked) (child parent : Text) :
    (forest.numberWithin child parent).1.WellLinked := by
  have ensured : ((forest.ensure child).ensure parent).WellLinked :=
    linked.congr (by simp) (by simp)
  unfold CounterForest.numberWithin
  generalize (forest.ensure child).ensure parent = forest at ensured
  dsimp only
  split
  · exact ensured.congr rfl rfl
  · rename_i taken
    simp only [closesCycle, Bool.or_eq_true, beq_iff_eq, List.contains_iff_mem,
      ensured.acyclic.mem_ancestors_iff, not_or] at taken
    obtain ⟨apart, notAbove⟩ := taken
    have gone (other : Text) :
        child ∉ listed (detach forest.children child (forest.parents.find? child)) other :=
      fun inside => (ensured.mem_listed_detach.1 inside).1 rfl
    constructor
    · exact ensured.acyclic.insert rfl apart notAbove
    · intro low high
      change low ∈ listed (attach _ _ _) high ↔ _
      rw [listed_attach (gone parent), @hasParent_insert forest _ _ _ rfl]
      by_cases same : child = low
      · subst same
        rw [if_pos rfl]
        split <;> simp [gone high, *]
      · have other : low ≠ child := fun equal => same equal.symm
        rw [if_neg same]
        split <;> simp [ensured.mem_listed_detach, other]
    · intro high
      change (listed (attach _ _ _) high).Nodup
      have detached := ensured.nodup_listed_detach child high
      rw [listed_attach (gone parent)]
      split
      · exact detached.append (List.nodup_singleton child) (by simpa using gone high)
      · exact detached

/-- Registering an environment keeps the links well. -/
theorem WellLinked.define (linked : forest.WellLinked) (declaration : Declaration) :
    (forest.define declaration).WellLinked := by
  have ensured : (forest.ensure declaration.counter).WellLinked := linked.congr (by simp) (by simp)
  unfold CounterForest.define
  cases declaration.within? with
  | none => exact ensured.congr rfl rfl
  | some parent => exact (ensured.numberWithin declaration.counter parent).congr rfl rfl

/-- Registering an environment where it is missing keeps the links well. -/
theorem WellLinked.ensureEnvironment (linked : forest.WellLinked) (environment : Text) :
    (forest.ensureEnvironment environment).WellLinked := by
  unfold CounterForest.ensureEnvironment
  split
  · exact linked
  · exact linked.define _

/-- Beginning a statement keeps the links well. -/
theorem WellLinked.begin (linked : forest.WellLinked) (environment : Text) :
    (forest.begin environment).1.WellLinked := by
  unfold CounterForest.begin
  dsimp only
  split
  · exact linked.ensureEnvironment environment
  · exact (linked.ensureEnvironment environment).congr rfl rfl

/-- One operation on a forest, with the forest that it leads to. -/
inductive Step (forest : CounterForest) : CounterForest → Prop
  /-- An environment is registered. -/
  | define (declaration : Declaration) : Step forest (forest.define declaration)
  /-- A counter is given a parent, or the edge is refused. -/
  | numberWithin (child parent : Text) : Step forest (forest.numberWithin child parent).1
  /-- A counter is stepped. -/
  | increment (counter : Text) : Step forest (forest.increment counter)
  /-- A statement begins. -/
  | begin (environment : Text) : Step forest (forest.begin environment).1
  /-- The refused edges are taken away. -/
  | takeWarnings : Step forest forest.takeWarnings.1
  /-- The order of caption and number is chosen. -/
  | swapped (flag : Bool) : Step forest { forest with swapped := flag }
  /-- The part of the document is chosen. -/
  | inAppendix (flag : Bool) : Step forest { forest with inAppendix := flag }
  /-- The alphabetic counters are chosen. -/
  | alphaRoots (roots : List Text) : Step forest { forest with alphaRoots := roots }

/-- A forest that some operations in some order make from a new one. -/
def Reachable : CounterForest → Prop := Relation.ReflTransGen Step new

/-- Every operation keeps the links well. -/
theorem WellLinked.step (linked : forest.WellLinked) (step : forest.Step next) :
    next.WellLinked := by
  cases step with
  | define declaration => exact linked.define declaration
  | numberWithin child parent => exact linked.numberWithin child parent
  | begin environment => exact linked.begin environment
  | increment counter => exact linked.congr rfl rfl
  | takeWarnings => exact linked.congr rfl rfl
  | swapped flag => exact linked.congr rfl rfl
  | inAppendix flag => exact linked.congr rfl rfl
  | alphaRoots roots => exact linked.congr rfl rfl

/-- The links of every forest that can be reached are kept well. -/
theorem Reachable.wellLinked (reachable : forest.Reachable) : forest.WellLinked := by
  induction reachable with
  | refl => exact wellLinked_new
  | tail _ step ih => exact ih.step step

/-- The values after some counters are set to zero. -/
theorem find?_foldl_insert_zero (counters : List Text) (values : NameMap UInt32) (other : Text) :
    (counters.foldl (fun values below => values.insert below 0) values).find? other =
      if other ∈ counters then some 0 else values.find? other := by
  induction counters generalizing values with
  | nil => simp
  | cons counter counters ih =>
    rw [List.foldl_cons, ih, NameMap.find?_insert]
    by_cases same : counter = other
    · simp [same]
    · have different : other ≠ counter := fun equal => same equal.symm
      simp [same, different]

/-- The values after a step: those below the counter are zero, its own is one more, and all
others are as before. -/
theorem WellLinked.value_increment (linked : forest.WellLinked) (counter other : Text) :
    (forest.increment counter).value other =
      if counter ∈ forest.ancestors other then 0
      else if other = counter then forest.value counter + 1 else forest.value other := by
  simp only [value, increment, find?_foldl_insert_zero, linked.mem_descendants_iff,
    NameMap.find?_insert]
  split
  · rfl
  · by_cases same : counter = other
    · rw [if_pos same, if_pos same.symm]
      rfl
    · have different : other ≠ counter := fun equal => same equal.symm
      rw [if_neg same, if_neg different]

/-- What stepping a counter does to a forest. -/
structure Steps (before after : CounterForest) (counter : Text) : Prop where
  /-- The counter is one more. -/
  stepped : (after.value counter).toNat = (before.value counter).toNat + 1
  /-- What lies below it is zero. -/
  reset : ∀ other, counter ∈ before.ancestors other → after.value other = 0
  /-- Every other value is kept. -/
  kept : ∀ other, other ≠ counter → counter ∉ before.ancestors other →
    after.value other = before.value other
  /-- All parents are kept. -/
  parents : after.parents = before.parents
  /-- All child lists are kept. -/
  children : after.children = before.children
  /-- All environments are kept. -/
  environments : after.environments = before.environments

/-- In a forest with links kept well a step does what it should while the value fits. -/
theorem WellLinked.steps_increment (linked : forest.WellLinked) {counter : Text}
    (fits : (forest.value counter).toNat < UInt32.size - 1) :
    forest.Steps (forest.increment counter) counter where
  stepped := by
    have apart : counter ∉ forest.ancestors counter := fun inside =>
      linked.acyclic counter (linked.acyclic.mem_ancestors_iff.1 inside)
    have bound : (forest.value counter).toNat + 1 < UInt32.size := by omega
    rw [linked.value_increment, if_neg apart, if_pos rfl, UInt32.toNat_add]
    exact Nat.mod_eq_of_lt bound
  reset other below := by rw [linked.value_increment, if_pos below]
  kept other different apart := by
    rw [linked.value_increment, if_neg apart, if_neg different]
  parents := rfl
  children := rfl
  environments := rfl

/-- In every forest that can be reached the parents have no cycle, a counter is listed once by its
parent and by no other counter, the two searches for ancestry find the same, and stepping a
counter resets just what lies below it. -/
theorem Reachable.increment_resets_below (reachable : forest.Reachable) :
    (∀ counter, ¬Relation.TransGen forest.HasParent counter counter) ∧
    (∀ child parent, (forest.childrenOf parent).count child =
      if forest.parents.find? child = some parent then 1 else 0) ∧
    (∀ low high, high ∈ forest.ancestors low ↔ Relation.TransGen forest.HasParent low high) ∧
    (∀ low high, low ∈ forest.descendants high ↔ high ∈ forest.ancestors low) ∧
    ∀ counter, (forest.value counter).toNat < UInt32.size - 1 →
      forest.Steps (forest.increment counter) counter := by
  have linked := reachable.wellLinked
  refine ⟨linked.acyclic, ?_, fun _ _ => linked.acyclic.mem_ancestors_iff,
    fun _ _ => linked.mem_descendants_iff, fun _ fits => linked.steps_increment fits⟩
  intro child parent
  split
  · rename_i edge
    exact List.count_eq_one_of_mem (linked.nodup parent) (linked.mem_childrenOf.2 edge)
  · rename_i apart
    exact List.count_eq_zero_of_not_mem fun inside => apart (linked.mem_childrenOf.1 inside)

/-- A counter that was given a second parent is reset by the ancestors of that one. -/
theorem increment_resets_below_second_parent :
    let nested := (((new.numberWithin "thm".toList "section".toList).1.numberWithin
      "thm".toList "subsection".toList).1.numberWithin "subsection".toList "section".toList).1
    let forest := (nested.begin "thm".toList).1
    forest.Reachable ∧ (forest.value "section".toList).toNat < UInt32.size - 1 ∧
      forest.Steps (forest.increment "section".toList) "section".toList ∧
      forest.value "thm".toList = 1 ∧
      (forest.increment "section".toList).value "thm".toList = 0 := by
  intro nested forest
  have reachable : forest.Reachable :=
    (((Relation.ReflTransGen.single (.numberWithin _ _)).tail (.numberWithin _ _)).tail
      (.numberWithin _ _)).tail (.begin _)
  have fits : (forest.value "section".toList).toNat < UInt32.size - 1 := by decide +kernel
  have steps := reachable.increment_resets_below.2.2.2.2 _ fits
  exact ⟨reachable, fits, steps, by decide +kernel, steps.reset _ (by decide +kernel)⟩

end CounterForest
end TexStatements
