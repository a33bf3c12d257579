import TexStatements.Counter.Plan
import TexStatements.Proofs.Counter.Invariant

/-!
# Edges that are taken

An edge is taken, without a warning, where the counter is neither its new parent nor above it. The
sectioning levels of a plan are linked by such edges.
-/
namespace TexStatements
namespace CounterForest

variable {forest : CounterForest}

/-- What goes over from counters to their parents goes over to all ancestors. -/
theorem forall_mem_ancestors {property : Text → Prop}
    (inherited : ∀ {child parent}, forest.HasParent child parent → property child →
      property parent) {counter : Text} (holds : property counter) :
    ∀ high ∈ forest.ancestors counter, property high := by
  have within : ∀ steps counter, property counter →
      ∀ high ∈ forest.ancestorsWithin steps counter, property high := by
    intro steps
    induction steps with
    | zero =>
      intro counter _ high mem
      cases mem
    | succ steps ih =>
      intro counter holds high mem
      rw [ancestorsWithin] at mem
      cases found : forest.parents.find? counter with
      | none =>
        rw [found] at mem
        cases mem
      | some parent =>
        rw [found] at mem
        have above : property parent := inherited found holds
        rcases List.mem_cons.1 mem with rfl | higher
        · exact above
        · exact ih parent above high higher
  exact within _ counter holds

/-- Whether an edge closes a cycle depends on the parents alone. -/
theorem closesCycle_congr {next : CounterForest} (parents : next.parents = forest.parents)
    (child parent : Text) : next.closesCycle child parent = forest.closesCycle child parent := by
  rw [closesCycle, closesCycle, ancestors_congr parents]

section NumberWithin

variable (forest : CounterForest) (child parent : Text)

/-- The parents after an edge was taken or refused. -/
theorem parents_numberWithin : (forest.numberWithin child parent).1.parents =
    if forest.closesCycle child parent then forest.parents
    else forest.parents.insert child parent := by
  have same : ((forest.ensure child).ensure parent).parents = forest.parents := by simp
  rw [numberWithin, closesCycle_congr same, apply_ite Prod.fst, apply_ite CounterForest.parents,
    same]

/-- The warnings after an edge was taken or refused. -/
theorem warnings_numberWithin : (forest.numberWithin child parent).1.warnings =
    if forest.closesCycle child parent then forest.warnings ++ [.cyclicCounter child parent]
    else forest.warnings := by
  have same : ((forest.ensure child).ensure parent).parents = forest.parents := by simp
  rw [numberWithin, closesCycle_congr same, apply_ite Prod.fst, apply_ite CounterForest.warnings,
    warnings_ensure, warnings_ensure]

end NumberWithin

/-- An edge that closes no cycle is taken, without a warning. -/
theorem numberWithin_of_open {child parent : Text} (apart : child ≠ parent)
    (notAbove : child ∉ forest.ancestors parent) :
    (forest.numberWithin child parent).1.parents = forest.parents.insert child parent ∧
      (forest.numberWithin child parent).1.warnings = forest.warnings := by
  have isOpen : forest.closesCycle child parent = false := by
    simp [closesCycle, apart, notAbove]
  rw [parents_numberWithin, warnings_numberWithin, isOpen]
  exact ⟨rfl, rfl⟩

section Define

variable {declaration : Declaration}

/-- An environment without a parent is registered with its counter. -/
theorem define_of_none (forest : CounterForest) (orphan : declaration.within? = none) :
    forest.define declaration = { forest.ensure declaration.counter with
      environments := forest.environments.insert declaration.name declaration } := by
  rw [define, orphan, environments_ensure]

/-- An environment with a parent is registered with its edge. -/
theorem define_of_within (forest : CounterForest) {parent : Text}
    (within : declaration.within? = some parent) :
    forest.define declaration = { (forest.numberWithin declaration.counter parent).1 with
      environments := forest.environments.insert declaration.name declaration } := by
  have entered : (forest.ensure declaration.counter).ensure declaration.counter =
      forest.ensure declaration.counter := by
    have known :
        (forest.ensure declaration.counter).values.contains declaration.counter = true := by
      unfold ensure
      split
      · assumption
      · rw [NameMap.contains_iff, NameMap.keys_insert]
        split
        · assumption
        · exact List.mem_append_right _ (List.mem_singleton_self _)
    rw [ensure, if_pos known]
  have edge : (forest.ensure declaration.counter).numberWithin declaration.counter parent =
      forest.numberWithin declaration.counter parent := by
    rw [numberWithin, entered]
    rfl
  rw [define, within]
  dsimp only
  rw [edge, environments_numberWithin]

end Define

end CounterForest

namespace SectionLevel

/-- The level that a level is numbered within. -/
def parent? (chapters : Bool) : SectionLevel → Option SectionLevel
  | .chapter => none
  | .section => if chapters then some .chapter else none
  | .subsection => some .section
  | .subsubsection => some .subsection

/-- Levels have different counters. -/
theorem counter_injective {level other : SectionLevel} (same : level.counter = other.counter) :
    level = other := by
  cases level <;> cases other <;> first | rfl | exact absurd same (by decide)

end SectionLevel

namespace NumberingPlan

open CounterForest

/-- The forest of a plan before environments are registered. -/
def levels (plan : NumberingPlan) (appendix : Bool) : CounterForest :=
  let start := { CounterForest.new with
    swapped := plan.swapsNumbers
    inAppendix := appendix
    alphaRoots := plan.alphaRoots }
  let start := if plan.hasChapters then nest start .section .chapter else start
  nest (nest start .subsection .section) .subsubsection .subsection

/-- The edges between the sectioning levels. -/
def levelParents (chapters : Bool) : NameMap Text :=
  let start := if chapters then NameMap.empty.insert "section".toList "chapter".toList
    else NameMap.empty
  (start.insert "subsection".toList "section".toList).insert "subsubsection".toList
    "subsection".toList

/-- An edge between levels is taken where it closes no cycle of the edges that are there. -/
theorem nest_of_parents {forest : CounterForest} {parents : NameMap Text}
    (child parent : SectionLevel) (known : forest.parents = parents) (silent : forest.warnings = [])
    (apart : child ≠ parent)
    (notAbove : child.counter ∉
      { CounterForest.new with parents := parents }.ancestors parent.counter) :
    (nest forest child parent).parents = parents.insert child.counter parent.counter ∧
      (nest forest child parent).warnings = [] := by
  have same : forest.ancestors parent.counter =
      { CounterForest.new with parents := parents }.ancestors parent.counter :=
    ancestors_congr known _
  have different : child.counter ≠ parent.counter :=
    fun equal => apart (SectionLevel.counter_injective equal)
  rw [← same] at notAbove
  obtain ⟨taken, quiet⟩ := numberWithin_of_open different notAbove
  rw [known] at taken
  exact ⟨taken, quiet.trans silent⟩

/-- The edges between the levels of a plan are all taken. -/
theorem parents_levels (plan : NumberingPlan) (appendix : Bool) :
    (plan.levels appendix).parents = levelParents plan.hasChapters ∧
      (plan.levels appendix).warnings = [] := by
  let start := { CounterForest.new with
    swapped := plan.swapsNumbers
    inAppendix := appendix
    alphaRoots := plan.alphaRoots }
  have none : start.parents = NameMap.empty := rfl
  unfold levels levelParents
  cases plan.hasChapters with
  | false =>
    obtain ⟨middle, quiet⟩ :=
      nest_of_parents .subsection .section none rfl (by decide) (by decide +kernel)
    exact nest_of_parents .subsubsection .subsection middle quiet (by decide) (by decide +kernel)
  | true =>
    obtain ⟨first, silent⟩ :=
      nest_of_parents .section .chapter none rfl (by decide) (by decide +kernel)
    obtain ⟨middle, quiet⟩ :=
      nest_of_parents .subsection .section first silent (by decide) (by decide +kernel)
    exact nest_of_parents .subsubsection .subsection middle quiet (by decide) (by decide +kernel)

/-- A level has the parent that the levels are numbered by. -/
theorem find?_levelParents (chapters : Bool) (level : SectionLevel) :
    (levelParents chapters).find? level.counter =
      (level.parent? chapters).map SectionLevel.counter := by
  cases chapters <;> cases level <;> decide +kernel

/-- Nothing but a level has a parent among the edges between levels. -/
theorem find?_levelParents_of_ne (chapters : Bool) {name : Text}
    (other : ∀ level : SectionLevel, name ≠ level.counter) :
    (levelParents chapters).find? name = none := by
  have highest : "section".toList ≠ name := (other .section).symm
  have middle : "subsection".toList ≠ name := (other .subsection).symm
  have lowest : "subsubsection".toList ≠ name := (other .subsubsection).symm
  cases chapters
  · simp only [levelParents, NameMap.find?_insert, if_neg middle, if_neg lowest]
    rfl
  · simp only [levelParents, if_true, NameMap.find?_insert, if_neg highest, if_neg middle,
      if_neg lowest]
    rfl

end NumberingPlan
end TexStatements
