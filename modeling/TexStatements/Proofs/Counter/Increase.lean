import TexStatements.Proofs.Counter.History

/-!
# Numbers that increase

When the history of a forest goes on with a step of a counter, the number of that counter becomes
greater at the first place where it changes: the first counter of its chain that was stepped has a
greater value, and those before it, none of which was stepped, have the values they had.
-/
namespace TexStatements

/-- Steps that start no count again are added to it. -/
theorem stepsSince_append {above steps more : List Text} (counter : Text)
    (free : ∀ step ∈ more, step ∉ above) :
    stepsSince above counter (steps ++ more) =
      stepsSince above counter steps + more.count counter := by
  have passed : (more.reverse ++ steps.reverse).takeWhile (· ∉ above) =
      more.reverse ++ steps.reverse.takeWhile (· ∉ above) :=
    List.takeWhile_append_of_pos (by simpa using free)
  rw [stepsSince, List.reverse_append, passed, List.count_append, List.count_reverse, Nat.add_comm]
  rfl

namespace CounterForest

variable {forest next : CounterForest}

/-- The ancestors of a counter that lies above another are the last ancestors of that one. -/
theorem Acyclic.ancestors_of_append (acyclic : forest.Acyclic) {counter high : Text}
    {below above : List Text}
    (whole : counter :: forest.ancestors counter = below ++ high :: above) :
    forest.ancestors high = above := by
  induction below generalizing counter with
  | nil =>
    rw [List.nil_append, List.cons.injEq] at whole
    rw [← whole.1, whole.2]
  | cons first below ih =>
    have rest := (List.cons.inj whole).2
    cases found : forest.parents.find? counter with
    | none => simp [ancestors_of_orphan found] at rest
    | some parent =>
      rw [acyclic.ancestors_of_hasParent found] at rest
      exact ih rest

/-- The counters before one in a chain are its ancestors, from the farthest on. -/
theorem Acyclic.ancestors_of_chain (acyclic : forest.Acyclic) {counter name : Text}
    {front behind : List Text} (whole : forest.chain counter = front ++ name :: behind) :
    forest.ancestors name = front.reverse := by
  have turned := congrArg List.reverse whole
  rw [chain, List.reverse_append, List.reverse_reverse, List.reverse_singleton,
    List.singleton_append, List.reverse_append, List.reverse_cons, List.append_assoc,
    List.singleton_append] at turned
  exact acyclic.ancestors_of_append turned

/-- Along the chain of a counter that is stepped, the values stay as they are up to the first one
that grows. -/
theorem Counts.increase {steps more : List Text} (before : forest.Counts steps)
    (after : next.Counts (steps ++ more)) (acyclic : forest.Acyclic)
    (parents : next.parents = forest.parents) {counter : Text} (stepped : counter ∈ more)
    (few : (steps ++ more).length < UInt32.size) :
    ∃ front name behind, forest.chain counter = front ++ name :: behind ∧
      (∀ high ∈ front, forest.value high = next.value high) ∧
      forest.value name < next.value name := by
  have first : ((forest.chain counter).find? (· ∈ more)).isSome = true := by
    rw [List.find?_isSome]
    exact ⟨counter, by simp [chain], by simpa using stepped⟩
  obtain ⟨name, first⟩ := Option.isSome_iff_exists.1 first
  obtain ⟨inside, front, behind, whole, passed⟩ := List.find?_eq_some_iff_append.1 first
  simp only [decide_eq_true_eq, Bool.not_eq_true', decide_eq_false_iff_not] at inside passed
  -- No counter before the first one that is stepped starts a count again.
  have kept {high : Text} {upper lower : List Text}
      (split : forest.chain counter = upper ++ high :: lower) (isFront : upper ⊆ front) :
      stepsSince (forest.ancestors high) high (steps ++ more) =
        stepsSince (forest.ancestors high) high steps + more.count high := by
    refine stepsSince_append high fun step isStep isAbove => ?_
    rw [acyclic.ancestors_of_chain split, List.mem_reverse] at isAbove
    exact passed step (isFront isAbove) isStep
  refine ⟨front, name, behind, whole, fun high isHigh => ?_, ?_⟩
  · obtain ⟨upper, lower, divided⟩ := List.append_of_mem isHigh
    have split : forest.chain counter = upper ++ high :: (lower ++ name :: behind) := by
      simp [whole, divided]
    have count := kept split fun other mem => divided ▸ List.mem_append_left _ mem
    rw [List.count_eq_zero_of_not_mem (passed high isHigh), Nat.add_zero] at count
    rw [before high, after high, ancestors_congr parents, count]
  · have count := kept whole (List.Subset.refl front)
    have positive : 0 < more.count name := List.count_pos_iff.2 inside
    have bound := stepsSince_le_length (forest.ancestors name) name (steps ++ more)
    have size : UInt32.size = 2 ^ 32 := rfl
    rw [before name, after name, ancestors_congr parents, UInt32.lt_iff_toNat_lt,
      UInt32.toNat_ofNat', UInt32.toNat_ofNat', Nat.mod_eq_of_lt (by omega),
      Nat.mod_eq_of_lt (by omega), count]
    exact Nat.lt_add_of_pos_right positive

end CounterForest
end TexStatements
