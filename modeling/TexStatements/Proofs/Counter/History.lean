import TexStatements.Proofs.Counter.Invariant

/-!
# Counters and the history of their steps

A number is made of the values of a counter and of those above it. Each of these values is a count
over the history of steps: the counter's own steps since the last step of a counter above it. The
counters above are those before it in its lineage, the list from the root down.
-/
namespace TexStatements

/-- Number of steps of a counter since the last step of one of the counters above it. -/
def stepsSince (above : List Text) (counter : Text) (steps : List Text) : Nat :=
  (steps.reverse.takeWhile (· ∉ above)).count counter

/-- The count after one more step: a step above the counter starts it again. -/
theorem stepsSince_concat (above : List Text) (counter : Text) (steps : List Text) (step : Text) :
    stepsSince above counter (steps ++ [step]) =
      if step ∈ above then 0
      else if step = counter then stepsSince above counter steps + 1
      else stepsSince above counter steps := by
  rw [stepsSince, List.reverse_append, List.reverse_singleton, List.singleton_append,
    List.takeWhile_cons]
  by_cases inside : step ∈ above
  · simp [inside]
  · simp only [inside, not_false_eq_true, decide_true, ↓reduceIte, List.count_cons, beq_iff_eq]
    split <;> rfl

/-- No more steps are counted than were taken. -/
theorem stepsSince_le_length (above : List Text) (counter : Text) (steps : List Text) :
    stepsSince above counter steps ≤ steps.length := by
  calc
    stepsSince above counter steps ≤ (steps.reverse.takeWhile (· ∉ above)).length :=
      List.count_le_length
    _ ≤ steps.reverse.length := List.IsPrefix.length_le (List.takeWhile_prefix _)
    _ = steps.length := List.length_reverse

/-- Only which counters lie above matters, not their order. -/
theorem stepsSince_reverse (above : List Text) (counter : Text) (steps : List Text) :
    stepsSince above.reverse counter steps = stepsSince above counter steps := by
  simp [stepsSince]

/-- The number that a history of steps gives to a lineage: for each counter the count of its steps,
written in a way that may depend on the counter, and a point. -/
def numberAlong (write : Text → Nat → Text) (steps : List Text) (above : List Text) :
    List Text → Text
  | [] => []
  | counter :: below =>
    write counter (stepsSince above counter steps) ++
      '.' :: numberAlong write steps (above ++ [counter]) below

/-- The number depends only on how the counts in it are written. -/
theorem numberAlong_congr {write other : Text → Nat → Text} {steps : List Text}
    (same : ∀ counter above, write counter (stepsSince above counter steps) =
      other counter (stepsSince above counter steps)) (above lineage : List Text) :
    numberAlong write steps above lineage = numberAlong other steps above lineage := by
  induction lineage generalizing above with
  | nil => rfl
  | cons counter below ih => rw [numberAlong, numberAlong, same, ih]

/-- The number of a longer lineage goes on behind that of its front. -/
theorem numberAlong_append (write : Text → Nat → Text) (steps above front below : List Text) :
    numberAlong write steps above (front ++ below) =
      numberAlong write steps above front ++ numberAlong write steps (above ++ front) below := by
  induction front generalizing above with
  | nil => simp [numberAlong]
  | cons counter front ih => simp [numberAlong, ih]

namespace CounterForest

variable {forest : CounterForest}

/-- The lineage of a counter: the counters from a root down to it, each the parent of the next. -/
inductive Lineage (forest : CounterForest) : List Text → Text → Prop
  /-- A counter without a parent is its own lineage. -/
  | root {counter : Text} (orphan : forest.parents.find? counter = none) :
    Lineage forest [counter] counter
  /-- A child stands behind the lineage of its parent. -/
  | child {lineage : List Text} {parent child : Text} (up : Lineage forest lineage parent)
    (edge : forest.HasParent child parent) : Lineage forest (lineage ++ [child]) child

/-- A lineage is one of every forest in which the same parents are found. -/
theorem Lineage.of_find? {next : CounterForest} {lineage : List Text} {counter : Text}
    (line : forest.Lineage lineage counter)
    (parents : ∀ name, next.parents.find? name = forest.parents.find? name) :
    next.Lineage lineage counter := by
  induction line with
  | root orphan => exact .root (by rw [parents, orphan])
  | child _ edge ih => exact ih.child (by rw [HasParent, parents, edge])

/-- A lineage is one of every forest with the same parents. -/
theorem Lineage.congr {next : CounterForest} {lineage : List Text} {counter : Text}
    (line : forest.Lineage lineage counter) (parents : next.parents = forest.parents) :
    next.Lineage lineage counter := line.of_find? fun _ => by rw [parents]

/-- A climb that ends early is not prolonged by one more step. -/
theorem ancestorsWithin_succ {steps : Nat} {counter : Text}
    (ended : forest.climb (steps + 1) counter = none) :
    forest.ancestorsWithin (steps + 1) counter = forest.ancestorsWithin steps counter := by
  induction steps generalizing counter with
  | zero =>
    rw [climb_succ] at ended
    have orphan : forest.parents.find? counter = none := by simpa [climb] using ended
    simp [ancestorsWithin, orphan]
  | succ steps ih =>
    rw [ancestorsWithin, ancestorsWithin]
    cases found : forest.parents.find? counter with
    | none => rfl
    | some parent =>
      rw [climb, found] at ended
      exact congrArg (parent :: ·) (ih ended)

/-- The ancestors of a child are its parent and the ancestors of that one. -/
theorem Acyclic.ancestors_of_hasParent (acyclic : forest.Acyclic) {child parent : Text}
    (edge : forest.HasParent child parent) :
    forest.ancestors child = parent :: forest.ancestors parent := by
  have ended : forest.climb (forest.parents.size + 1) child = none := by
    by_contra reached
    obtain ⟨high, reached⟩ := Option.ne_none_iff_exists'.1 reached
    exact absurd (acyclic.climb_bound reached) (Nat.lt_irrefl _)
  rw [ancestors, ← ancestorsWithin_succ ended, ancestorsWithin, edge]
  rfl

/-- A counter without a parent has no ancestors. -/
theorem ancestors_of_orphan {counter : Text} (orphan : forest.parents.find? counter = none) :
    forest.ancestors counter = [] := by
  rw [ancestors]
  cases forest.parents.size with
  | zero => rfl
  | succ steps => rw [ancestorsWithin, orphan]

/-- A lineage is the chain that the ancestors give. -/
theorem Lineage.eq_chain (acyclic : forest.Acyclic) {lineage : List Text} {counter : Text}
    (line : forest.Lineage lineage counter) : lineage = forest.chain counter := by
  induction line with
  | root orphan => simp [chain, ancestors_of_orphan orphan]
  | child _ edge ih =>
    rw [ih, chain, chain, acyclic.ancestors_of_hasParent edge, List.reverse_cons]

/-- Every counter of a forest without cycles has a lineage, the chain of its ancestors. -/
theorem Acyclic.lineage_chain (acyclic : forest.Acyclic) (counter : Text) :
    forest.Lineage (forest.chain counter) counter := by
  induction length : (forest.ancestors counter).length generalizing counter with
  | zero =>
    cases found : forest.parents.find? counter with
    | none =>
      rw [chain, ancestors_of_orphan found]
      exact .root found
    | some parent => simp [acyclic.ancestors_of_hasParent found] at length
  | succ more ih =>
    cases found : forest.parents.find? counter with
    | none => simp [ancestors_of_orphan found] at length
    | some parent =>
      have whole := acyclic.ancestors_of_hasParent found
      rw [whole, List.length_cons, Nat.add_right_cancel_iff] at length
      have line := (ih parent length).child found
      rwa [chain, ← List.reverse_cons, ← whole] at line

/-- The counters before a child in its lineage are its ancestors, from the farthest on. -/
theorem Lineage.ancestors_eq (acyclic : forest.Acyclic) {lineage : List Text}
    {parent child : Text} (line : forest.Lineage lineage parent)
    (edge : forest.HasParent child parent) : forest.ancestors child = lineage.reverse := by
  rw [line.eq_chain acyclic, chain, acyclic.ancestors_of_hasParent edge, List.reverse_append,
    List.reverse_reverse]
  rfl

/-- Every value of a forest counts the steps of a history, in a 32-bit word. -/
def Counts (forest : CounterForest) (steps : List Text) : Prop :=
  ∀ counter, forest.value counter =
    UInt32.ofNat (stepsSince (forest.ancestors counter) counter steps)

/-- A step is counted. -/
theorem Counts.increment {steps : List Text} (counts : forest.Counts steps)
    (linked : forest.WellLinked) (counter : Text) :
    (forest.increment counter).Counts (steps ++ [counter]) := by
  intro other
  rw [linked.value_increment, ancestors_congr (parents_increment forest counter), stepsSince_concat]
  by_cases above : counter ∈ forest.ancestors other
  · rw [if_pos above, if_pos above]
    rfl
  · rw [if_neg above, if_neg above]
    by_cases same : other = counter
    · subst same
      rw [if_pos rfl, if_pos rfl, counts other, UInt32.ofNat_add]
      rfl
    · rw [if_neg same, if_neg fun equal => same equal.symm]
      exact counts other

/-- The formatted number is the number that the history gives to the lineage. -/
theorem Counts.formattedNumber_eq {steps lineage : List Text} {counter : Text}
    (counts : forest.Counts steps) (acyclic : forest.Acyclic)
    (line : forest.Lineage lineage counter) (write : Text → Nat → Text)
    (written : ∀ name count, forest.value name = UInt32.ofNat count →
      forest.component name = write name count) :
    forest.formattedNumber counter = numberAlong write steps [] lineage := by
  rw [formattedNumber, ← line.eq_chain acyclic]
  induction line with
  | root orphan =>
    simp [numberAlong, written _ _ (counts _), ancestors_of_orphan orphan]
  | child line edge ih =>
    rw [List.flatMap_append, ih, numberAlong_append]
    simp [numberAlong, written _ _ (counts _), line.ancestors_eq acyclic edge,
      stepsSince_reverse]

end CounterForest
end TexStatements
