import TexStatements.Proofs.Counter.Edges

/-!
# Edges that are refused

Giving a counter a new parent takes its old one away. Whether that closes a cycle is decided on the
forest as it was, by looking for the counter above the new parent; a path from there up to the
counter never uses the edge that is taken away, so nothing is missed and nothing is refused without
need. A refused edge leaves a warning behind and nothing else.
-/
namespace TexStatements
namespace CounterForest

variable {forest : CounterForest} {child parent : Text}

/-- The parents as they would be with a new parent for one counter, in place of its old one. -/
def Reparented (forest : CounterForest) (child parent low high : Text) : Prop :=
  if child = low then parent = high else forest.HasParent low high

/-- What lies below a counter lies below it still when that counter gets a new parent. -/
theorem Acyclic.reparented_below (acyclic : forest.Acyclic) {low : Text} (parent : Text)
    (below : forest.Below low child) :
    Relation.TransGen (forest.Reparented child parent) low child := by
  -- No counter of the path is the child itself, or the child would lie below itself.
  have kept {low high : Text} (under : forest.Below low child) (edge : forest.HasParent low high) :
      forest.Reparented child parent low high := by
    have apart : child ≠ low := by
      rintro rfl
      exact acyclic child under
    rw [Reparented, if_neg apart]
    exact edge
  induction below using Relation.TransGen.head_induction_on with
  | single edge => exact .single (kept (.single edge) edge)
  | head edge rest ih => exact .head (kept (.head edge rest) edge) ih

/-- Giving a counter a new parent closes a cycle exactly when the parent is the counter itself or
lies below it. -/
theorem Acyclic.exists_cycle_reparented_iff (acyclic : forest.Acyclic) :
    (∃ counter, Relation.TransGen (forest.Reparented child parent) counter counter) ↔
      child = parent ∨ forest.Below parent child := by
  constructor
  · rintro ⟨counter, cycle⟩
    by_contra isOpen
    rw [not_or] at isOpen
    let next := { forest with parents := forest.parents.insert child parent }
    have edges : next.HasParent = forest.Reparented child parent := by
      funext low high
      exact propext (hasParent_insert rfl)
    have none : next.Acyclic := acyclic.insert rfl isOpen.1 isOpen.2
    rw [← edges] at cycle
    exact none counter cycle
  · have edge : forest.Reparented child parent child parent := by
      rw [Reparented, if_pos rfl]
    rintro (rfl | below)
    · exact ⟨child, .single edge⟩
    · exact ⟨child, .head edge (acyclic.reparented_below parent below)⟩

/-- An edge is refused exactly when the parent is the counter itself or lies below it. -/
theorem Acyclic.closesCycle_iff (acyclic : forest.Acyclic) :
    forest.closesCycle child parent = true ↔ child = parent ∨ forest.Below parent child := by
  rw [closesCycle, Bool.or_eq_true, beq_iff_eq, List.contains_iff_mem, acyclic.mem_ancestors_iff]

section Answer

variable (forest : CounterForest) (child parent : Text)

/-- The answer to an edge is no exactly when it closes a cycle. -/
theorem numberWithin_snd :
    (forest.numberWithin child parent).2 = !forest.closesCycle child parent := by
  have same : ((forest.ensure child).ensure parent).parents = forest.parents := by simp
  rw [numberWithin, closesCycle_congr same, apply_ite Prod.snd]
  cases forest.closesCycle child parent <;> rfl

/-- The child lists after an edge was taken or refused. -/
theorem children_numberWithin : (forest.numberWithin child parent).1.children =
    if forest.closesCycle child parent then forest.children
    else attach (detach forest.children child (forest.parents.find? child)) child parent := by
  have same : ((forest.ensure child).ensure parent).parents = forest.parents := by simp
  rw [numberWithin, closesCycle_congr same, apply_ite Prod.fst,
    apply_ite CounterForest.children, same, children_ensure, children_ensure]

end Answer

/-- What a refused edge does to a forest: one more warning, and nothing else. -/
structure Refuses (before after : CounterForest) (child parent : Text) : Prop where
  /-- All parents are kept. -/
  parents : after.parents = before.parents
  /-- All child lists are kept. -/
  children : after.children = before.children
  /-- All environments are kept. -/
  environments : after.environments = before.environments
  /-- All values are kept. -/
  value : ∀ counter, after.value counter = before.value counter
  /-- Headings are written as before. -/
  flags : after.flags = before.flags
  /-- The edge is warned of, once. -/
  warnings : after.warnings = before.warnings ++ [.cyclicCounter child parent]

/-- What an edge that is taken does to a forest: the counter moves to its new parent. -/
structure Takes (before after : CounterForest) (child parent : Text) : Prop where
  /-- The counter has the new parent. -/
  hasParent : after.HasParent child parent
  /-- It is listed once by its new parent, and by no other counter. -/
  listed : ∀ other, (after.childrenOf other).count child = if other = parent then 1 else 0
  /-- All other counters keep their parents. -/
  parents : ∀ other, other ≠ child → after.parents.find? other = before.parents.find? other
  /-- All other counters are listed where they were. -/
  children : ∀ other, other ≠ child → ∀ high,
    other ∈ after.childrenOf high ↔ other ∈ before.childrenOf high
  /-- All environments are kept. -/
  environments : after.environments = before.environments
  /-- All values are kept. -/
  value : ∀ counter, after.value counter = before.value counter
  /-- Headings are written as before. -/
  flags : after.flags = before.flags
  /-- Nothing is warned of. -/
  warnings : after.warnings = before.warnings

/-- An edge that closes a cycle is refused. -/
theorem refuses_of_closesCycle (closes : forest.closesCycle child parent = true) :
    forest.Refuses (forest.numberWithin child parent).1 child parent where
  parents := by rw [parents_numberWithin, if_pos closes]
  children := by rw [children_numberWithin, if_pos closes]
  environments := environments_numberWithin forest child parent
  value := value_numberWithin forest child parent
  flags := flags_numberWithin forest child parent
  warnings := by rw [warnings_numberWithin, if_pos closes]

/-- An edge that closes no cycle is taken. -/
theorem WellLinked.takes_of_open (linked : forest.WellLinked)
    (isOpen : ¬forest.closesCycle child parent = true) :
    forest.Takes (forest.numberWithin child parent).1 child parent := by
  have after := linked.numberWithin child parent
  have edges {low high : Text} : (forest.numberWithin child parent).1.HasParent low high ↔
      if child = low then parent = high else forest.HasParent low high := by
    refine hasParent_insert ?_
    rw [parents_numberWithin, if_neg isOpen]
  have moved : (forest.numberWithin child parent).1.HasParent child parent := by
    rw [edges, if_pos rfl]
  have others {other : Text} (different : other ≠ child) (high : Text) :
      (forest.numberWithin child parent).1.HasParent other high ↔ forest.HasParent other high := by
    rw [edges, if_neg different.symm]
  refine ⟨moved, fun other => ?_, fun other different => ?_, fun other different high => ?_,
    environments_numberWithin forest child parent, value_numberWithin forest child parent,
    flags_numberWithin forest child parent, ?_⟩
  · split
    · rename_i same
      subst same
      exact List.count_eq_one_of_mem (after.nodup _) (after.mem_childrenOf.2 moved)
    · rename_i different
      refine List.count_eq_zero_of_not_mem fun inside => different ?_
      have edge := after.mem_childrenOf.1 inside
      rw [edges, if_pos rfl] at edge
      exact edge.symm
  · exact Option.ext fun high => others different high
  · rw [after.mem_childrenOf, linked.mem_childrenOf, others different]
  · rw [warnings_numberWithin, if_neg isOpen]

/-- In every forest that can be reached an edge is refused exactly when the counter is its new
parent or lies above it, which is when the parents would have a cycle with the new one in place of
the old one. A refused edge adds its warning and changes nothing else; any other edge moves the
counter to its new parent, without a warning, and changes nothing else. -/
theorem Reachable.numberWithin_refuses_cycles (reachable : forest.Reachable)
    (child parent : Text) :
    let after := (forest.numberWithin child parent).1
    let taken := (forest.numberWithin child parent).2
    (taken = false ↔ child = parent ∨ Relation.TransGen forest.HasParent parent child) ∧
    (taken = false ↔
      ∃ counter, Relation.TransGen (forest.Reparented child parent) counter counter) ∧
    (taken = false → forest.Refuses after child parent) ∧
    (taken = true → forest.Takes after child parent) := by
  intro after taken
  have linked := reachable.wellLinked
  have answer : taken = !forest.closesCycle child parent := numberWithin_snd forest child parent
  have refused : taken = false ↔ forest.closesCycle child parent = true := by simp [answer]
  have accepted : taken = true ↔ ¬forest.closesCycle child parent = true := by simp [answer]
  refine ⟨?_, ?_, fun no => ?_, fun yes => ?_⟩
  · rw [refused, linked.acyclic.closesCycle_iff]
    rfl
  · rw [refused, linked.acyclic.closesCycle_iff, linked.acyclic.exists_cycle_reparented_iff]
  · exact refuses_of_closesCycle (refused.1 no)
  · exact linked.takes_of_open (accepted.1 yes)

/-- A chapter cannot be numbered within a theorem of its sections, until the theorem has moved to
another counter. -/
theorem numberWithin_refuses_cycles_until_moved :
    let nested := ((new.numberWithin "section".toList "chapter".toList).1.numberWithin
      "thm".toList "section".toList).1
    let moved := (nested.numberWithin "thm".toList "part".toList).1
    nested.Reachable ∧ moved.Reachable ∧
      nested.Refuses (nested.numberWithin "chapter".toList "thm".toList).1
        "chapter".toList "thm".toList ∧
      moved.Takes (moved.numberWithin "chapter".toList "thm".toList).1
        "chapter".toList "thm".toList := by
  intro nested moved
  have reachable : nested.Reachable :=
    (Relation.ReflTransGen.single (.numberWithin _ _)).tail (.numberWithin _ _)
  have onwards : moved.Reachable := reachable.tail (.numberWithin _ _)
  have refused : (nested.numberWithin "chapter".toList "thm".toList).2 = false := by
    decide +kernel
  have taken : (moved.numberWithin "chapter".toList "thm".toList).2 = true := by
    decide +kernel
  exact ⟨reachable, onwards,
    (reachable.numberWithin_refuses_cycles _ _).2.2.1 refused,
    (onwards.numberWithin_refuses_cycles _ _).2.2.2 taken⟩

end CounterForest
end TexStatements
