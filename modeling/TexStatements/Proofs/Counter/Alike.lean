import TexStatements.Proofs.Counter.Edges
import TexStatements.Proofs.Counter.History

/-!
# Forests that count alike

A forest keeps its counters and environments in maps, and these remember in which order they were
entered. No number depends on that order, but only on what is found in the maps. Two forests in
which the same is found stay so whatever is done to both of them, and all that they write is the
same.
-/
namespace TexStatements
namespace CounterForest

variable {left right : CounterForest}

/-- The same is found in two forests, which both keep their links well. -/
structure Alike (left right : CounterForest) : Prop where
  /-- The links of the first are kept well. -/
  linked : left.WellLinked
  /-- Those of the second are. -/
  otherLinked : right.WellLinked
  /-- Counters have the same parents. -/
  parents : ∀ counter, left.parents.find? counter = right.parents.find? counter
  /-- Counters have the same values. -/
  values : ∀ counter, left.value counter = right.value counter
  /-- Environments have the same declarations. -/
  environments : ∀ environment,
    left.environments.find? environment = right.environments.find? environment
  /-- Headings are written in the same way. -/
  flags : left.flags = right.flags
  /-- The same edges were refused, in the same order. -/
  warnings : left.warnings = right.warnings

namespace Alike

/-- The chain of a counter is the same. -/
theorem chain_eq (alike : left.Alike right) (counter : Text) :
    left.chain counter = right.chain counter :=
  ((alike.linked.acyclic.lineage_chain counter).of_find? fun name =>
    (alike.parents name).symm).eq_chain alike.otherLinked.acyclic

/-- The ancestors of a counter are the same. -/
theorem ancestors_eq (alike : left.Alike right) (counter : Text) :
    left.ancestors counter = right.ancestors counter := by
  have same := alike.chain_eq counter
  rw [chain, chain] at same
  exact List.reverse_injective (List.append_cancel_right same)

/-- The same edges close a cycle. -/
theorem closesCycle_eq (alike : left.Alike right) (child parent : Text) :
    left.closesCycle child parent = right.closesCycle child parent := by
  rw [closesCycle, closesCycle, alike.ancestors_eq]

/-- The number of a counter is the same. -/
theorem formattedNumber_eq (alike : left.Alike right) (counter : Text) :
    left.formattedNumber counter = right.formattedNumber counter := by
  have flags := alike.flags
  simp only [CounterForest.flags, Prod.mk.injEq] at flags
  obtain ⟨-, inAppendix, alphaRoots⟩ := flags
  rw [formattedNumber, formattedNumber, alike.chain_eq]
  simp only [component, alike.values, inAppendix, alphaRoots]

/-- A heading is the same. -/
theorem heading_eq (alike : left.Alike right) (caption number : Text) :
    left.heading caption number = right.heading caption number := by
  have flags := alike.flags
  simp only [CounterForest.flags, Prod.mk.injEq] at flags
  rw [heading, heading, flags.1]

section Step

variable (alike : left.Alike right)

include alike

/-- Entering a counter changes nothing that is found. -/
theorem ensure (counter : Text) : (left.ensure counter).Alike (right.ensure counter) where
  linked := alike.linked.congr (by simp) (by simp)
  otherLinked := alike.otherLinked.congr (by simp) (by simp)
  parents other := by rw [parents_ensure, parents_ensure, alike.parents]
  values other := by rw [value_ensure, value_ensure, alike.values]
  environments other := by rw [environments_ensure, environments_ensure, alike.environments]
  flags := by rw [flags_ensure, flags_ensure, alike.flags]
  warnings := by rw [warnings_ensure, warnings_ensure, alike.warnings]

/-- An edge is taken in both forests, or refused in both. -/
theorem numberWithin (child parent : Text) :
    (left.numberWithin child parent).1.Alike (right.numberWithin child parent).1 where
  linked := alike.linked.numberWithin child parent
  otherLinked := alike.otherLinked.numberWithin child parent
  parents other := by
    rw [parents_numberWithin, parents_numberWithin, alike.closesCycle_eq]
    split
    · exact alike.parents other
    · rw [NameMap.find?_insert, NameMap.find?_insert, alike.parents]
  values other := by rw [value_numberWithin, value_numberWithin, alike.values]
  environments other := by
    rw [environments_numberWithin, environments_numberWithin, alike.environments]
  flags := by rw [flags_numberWithin, flags_numberWithin, alike.flags]
  warnings := by
    rw [warnings_numberWithin, warnings_numberWithin, alike.closesCycle_eq, alike.warnings]

/-- A declaration that is entered in both forests is found in both. -/
theorem register (declaration : Declaration) :
    { left with environments := left.environments.insert declaration.name declaration }.Alike
      { right with environments := right.environments.insert declaration.name declaration } where
  linked := alike.linked.congr rfl rfl
  otherLinked := alike.otherLinked.congr rfl rfl
  parents := alike.parents
  values := alike.values
  environments other := by
    rw [NameMap.find?_insert, NameMap.find?_insert, alike.environments]
  flags := alike.flags
  warnings := alike.warnings

/-- An environment is registered alike. -/
theorem define (declaration : Declaration) :
    (left.define declaration).Alike (right.define declaration) := by
  cases within : declaration.within? with
  | none =>
    rw [define_of_none left within, define_of_none right within, ← environments_ensure left,
      ← environments_ensure right]
    exact (alike.ensure _).register declaration
  | some parent =>
    rw [define_of_within left within, define_of_within right within,
      ← environments_numberWithin left, ← environments_numberWithin right]
    exact (alike.numberWithin _ parent).register declaration

/-- An environment is registered in both forests, or in none because both know it. -/
theorem ensureEnvironment (environment : Text) :
    (left.ensureEnvironment environment).Alike (right.ensureEnvironment environment) := by
  have known : left.environments.contains environment =
      right.environments.contains environment := by
    rw [NameMap.contains, NameMap.contains, alike.environments]
  rw [CounterForest.ensureEnvironment, CounterForest.ensureEnvironment, known]
  split
  · exact alike
  · exact alike.define _

/-- A step changes the values in both forests alike. -/
theorem increment (counter : Text) :
    (left.increment counter).Alike (right.increment counter) where
  linked := alike.linked.congr rfl rfl
  otherLinked := alike.otherLinked.congr rfl rfl
  parents := alike.parents
  values other := by
    rw [alike.linked.value_increment, alike.otherLinked.value_increment, alike.ancestors_eq,
      alike.values counter, alike.values other]
  environments := alike.environments
  flags := alike.flags
  warnings := alike.warnings

/-- A statement takes the same heading in both forests, and they go on alike. -/
theorem begin (environment : Text) :
    (left.begin environment).1.Alike (right.begin environment).1 ∧
      (left.begin environment).2 = (right.begin environment).2 := by
  have ensured := alike.ensureEnvironment environment
  unfold CounterForest.begin
  generalize left.ensureEnvironment environment = left at ensured ⊢
  generalize right.ensureEnvironment environment = right at ensured ⊢
  dsimp only
  rw [declarationOf, declarationOf, ensured.environments]
  split
  · exact ⟨ensured, rfl⟩
  · have stepped := ensured.increment
      ((right.environments.find? environment).getD (Declaration.new environment [] false)).counter
    refine ⟨stepped, ?_⟩
    rw [stepped.formattedNumber_eq, stepped.heading_eq]

/-- Taking the refused edges away leaves what is found. -/
theorem takeWarnings : left.takeWarnings.1.Alike right.takeWarnings.1 where
  linked := alike.linked.congr rfl rfl
  otherLinked := alike.otherLinked.congr rfl rfl
  parents := alike.parents
  values := alike.values
  environments := alike.environments
  flags := alike.flags
  warnings := rfl

end Step

/-- Edges in a row are taken or refused alike. -/
theorem foldl_numberWithin (alike : left.Alike right) (edges : List (Text × Text)) :
    (edges.foldl (fun forest edge => (forest.numberWithin edge.1 edge.2).1) left).Alike
      (edges.foldl (fun forest edge => (forest.numberWithin edge.1 edge.2).1) right) := by
  induction edges generalizing left right with
  | nil => exact alike
  | cons edge more ih => exact ih (alike.numberWithin edge.1 edge.2)

/-- The commands before an offset step the counters of both forests, and the same are left. -/
theorem advance (alike : left.Alike right) (offset : Nat) (markers : List SectionMarker) :
    (NumberingPlan.advance offset left markers).1.Alike
        (NumberingPlan.advance offset right markers).1 ∧
      (NumberingPlan.advance offset left markers).2 =
        (NumberingPlan.advance offset right markers).2 := by
  induction markers generalizing left right with
  | nil => exact ⟨alike, rfl⟩
  | cons marker more ih =>
    rw [NumberingPlan.advance, NumberingPlan.advance]
    split
    · exact ih (alike.increment marker.level.counter)
    · exact ⟨alike, rfl⟩

/-- The headings of a part are the same. -/
theorem headings_eq (alike : left.Alike right) (markers : List SectionMarker)
    (occurrences : List Occurrence) :
    NumberingPlan.headings left markers occurrences =
      NumberingPlan.headings right markers occurrences := by
  induction occurrences generalizing left right markers with
  | nil => rfl
  | cons occurrence more ih =>
    obtain ⟨advanced, rest⟩ := alike.advance occurrence.offset markers
    obtain ⟨begun, heading⟩ := advanced.begin occurrence.environment
    rw [NumberingPlan.headings, NumberingPlan.headings]
    dsimp only
    rw [heading, rest, ih begun]

end Alike
end CounterForest

/-- Plans whose forests count alike number every part alike. -/
theorem NumberingPlan.number_eq_of_alike {left right : NumberingPlan} {appendix : Bool}
    (alike : (left.forest appendix).Alike (right.forest appendix)) (occurrences : List Occurrence)
    (markers : List SectionMarker) :
    left.number occurrences markers appendix = right.number occurrences markers appendix := by
  have headings := alike.takeWarnings.headings_eq
    (markers.filter fun marker => !marker.starred) occurrences
  exact Prod.ext headings alike.warnings

end TexStatements
