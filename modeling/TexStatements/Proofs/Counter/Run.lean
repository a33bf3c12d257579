import TexStatements.Proofs.Counter.Digits
import TexStatements.Proofs.Counter.Increase

/-!
# Numbers in the course of a run

A run steps counters and begins statements, and gives no counter a parent. Each step makes the
values along a chain that it lies on greater: those before the stepped counter stay, and its own
grows. A chain that it does not lie on stays as it is. So along every chain the values never become
smaller in the order of their first difference, and of two statements that step the same counter the
later has the greater number (`Reachable.numbers_increase`).
-/
namespace TexStatements
namespace CounterForest

/-- A call that changes values and gives no counter a parent. -/
inductive Call where
  /-- Step a counter. -/
  | increment (counter : Text)
  /-- Begin a statement of an environment. -/
  | begin (environment : Text)

variable {forest next : CounterForest}

/-- The forest after a call. -/
def after (forest : CounterForest) : Call → CounterForest
  | .increment counter => forest.increment counter
  | .begin environment => (forest.begin environment).1

/-- The counter that a call steps; a statement of a starred environment steps none. -/
def stepped? (forest : CounterForest) : Call → Option Text
  | .increment counter => some counter
  | .begin environment =>
    let declaration := forest.declarationOf environment
    if declaration.starred then none else some declaration.counter

/-- The forest after calls in a row. -/
def run (forest : CounterForest) (calls : List Call) : CounterForest := calls.foldl after forest

/-- No step of a run finds its counter at the greatest value that a word has. -/
def Fits (forest : CounterForest) : List Call → Prop
  | [] => True
  | call :: more =>
    (∀ counter ∈ forest.stepped? call, (forest.value counter).toNat < UInt32.size - 1) ∧
      (forest.after call).Fits more

/-- The values along the chain of a counter, from the root down. -/
def chainValues (forest : CounterForest) (counter : Text) : List UInt32 :=
  (forest.chain counter).map forest.value

section Begin

variable (forest : CounterForest) (environment : Text)

/-- A statement that steps a counter is headed by its caption and the number that the counter then
has. -/
theorem begin_of_stepped {counter : Text}
    (stepped : forest.stepped? (.begin environment) = some counter) :
    forest.begin environment = ((forest.begin environment).1,
      (forest.begin environment).1.heading (forest.declarationOf environment).caption
        ((forest.begin environment).1.formattedNumber counter)) := by
  rw [stepped?, Option.ite_none_left_eq_some, Option.some.injEq] at stepped
  obtain ⟨numbered, own⟩ := stepped
  unfold begin
  dsimp only
  rw [declarationOf_ensureEnvironment, if_neg numbered, own]

/-- Beginning a statement registers its environment and steps its counter, if it has one. -/
theorem after_begin : forest.after (.begin environment) =
    match forest.stepped? (.begin environment) with
    | some counter => (forest.ensureEnvironment environment).increment counter
    | none => forest.ensureEnvironment environment := by
  unfold after begin stepped?
  dsimp only
  rw [declarationOf_ensureEnvironment]
  split <;> rfl

end Begin

section Call

variable {call : Call} {counter : Text}

/-- A call gives no counter a parent. -/
theorem parents_after (forest : CounterForest) (call : Call) :
    (forest.after call).parents = forest.parents := by
  cases call with
  | increment counter => rfl
  | begin environment =>
    rw [after_begin]
    split
    · exact parents_ensureEnvironment forest environment
    · exact parents_ensureEnvironment forest environment

/-- A call does not change how headings are written. -/
theorem flags_after (forest : CounterForest) (call : Call) :
    (forest.after call).flags = forest.flags := by
  cases call with
  | increment counter => rfl
  | begin environment =>
    rw [after_begin]
    split
    · exact flags_ensureEnvironment forest environment
    · exact flags_ensureEnvironment forest environment

/-- A call keeps the links well. -/
theorem WellLinked.after (linked : forest.WellLinked) (call : Call) :
    (forest.after call).WellLinked := by
  cases call with
  | increment counter => exact linked.congr rfl rfl
  | begin environment => exact linked.begin environment

/-- A call that steps no counter leaves every value as it is. -/
theorem value_after_of_none (none : forest.stepped? call = none) (other : Text) :
    (forest.after call).value other = forest.value other := by
  cases call with
  | increment counter => cases none
  | begin environment =>
    rw [after_begin, none]
    exact value_ensureEnvironment forest environment other

/-- The values after a call that steps a counter are those after the step. -/
theorem WellLinked.value_after (linked : forest.WellLinked)
    (stepped : forest.stepped? call = some counter) (other : Text) :
    (forest.after call).value other = (forest.increment counter).value other := by
  cases call with
  | increment name =>
    cases stepped
    rfl
  | begin environment =>
    have ensured := linked.ensureEnvironment environment
    have same := ancestors_congr (parents_ensureEnvironment forest environment) other
    rw [after_begin, stepped]
    dsimp only
    rw [ensured.value_increment, linked.value_increment, same, value_ensureEnvironment,
      value_ensureEnvironment]

end Call

section Growth

variable {call : Call}

/-- A step makes a value greater by one at most. -/
theorem WellLinked.value_increment_le (linked : forest.WellLinked) (step name : Text) :
    ((forest.increment step).value name).toNat ≤ (forest.value name).toNat + 1 := by
  rw [linked.value_increment]
  split
  · exact Nat.zero_le _
  · split
    · rename_i same
      rw [same, UInt32.toNat_add]
      exact Nat.mod_le _ _
    · omega

/-- A call makes a value greater by one at most. -/
theorem WellLinked.value_after_le (linked : forest.WellLinked) (call : Call) (name : Text) :
    ((forest.after call).value name).toNat ≤ (forest.value name).toNat + 1 := by
  cases stepped : forest.stepped? call with
  | none =>
    rw [value_after_of_none stepped]
    omega
  | some step =>
    rw [linked.value_after stepped]
    exact linked.value_increment_le step name

/-- An operation makes a value greater by one at most. -/
theorem WellLinked.value_step_le (linked : forest.WellLinked) (step : forest.Step next)
    (name : Text) : (next.value name).toNat ≤ (forest.value name).toNat + 1 := by
  cases step with
  | increment counter => exact linked.value_increment_le counter name
  | begin environment => exact linked.value_after_le (.begin environment) name
  | define declaration =>
    rw [value_define]
    omega
  | numberWithin child parent =>
    rw [value_numberWithin]
    omega
  | takeWarnings => exact Nat.le_succ _
  | swapped flag => exact Nat.le_succ _
  | inAppendix flag => exact Nat.le_succ _
  | alphaRoots roots => exact Nat.le_succ _

end Growth

/-- Chains depend on the parents alone. -/
theorem chain_congr (parents : next.parents = forest.parents) (counter : Text) :
    next.chain counter = forest.chain counter := by
  rw [chain, chain, ancestors_congr parents]

section Step

variable {call : Call} {step counter : Text}

/-- A step changes no value along a chain that it does not lie on. -/
theorem WellLinked.chainValues_increment (linked : forest.WellLinked)
    (apart : step ∉ forest.chain counter) :
    (forest.increment step).chainValues counter = forest.chainValues counter := by
  rw [chainValues, chainValues, chain_congr (parents_increment forest step)]
  apply List.map_congr_left
  intro name mem
  obtain ⟨front, behind, whole⟩ := List.append_of_mem mem
  have above : step ∉ forest.ancestors name := by
    rw [linked.acyclic.ancestors_of_chain whole, List.mem_reverse]
    intro inFront
    apply apart
    rw [whole]
    exact List.mem_append_left _ inFront
  have other : name ≠ step := by
    rintro rfl
    exact apart mem
  rw [linked.value_increment, if_neg above, if_neg other]

/-- A step makes the values along a chain that it lies on greater. -/
theorem WellLinked.chainValues_lt_increment (linked : forest.WellLinked)
    (fits : (forest.value step).toNat < UInt32.size - 1) (mem : step ∈ forest.chain counter) :
    forest.chainValues counter < (forest.increment step).chainValues counter := by
  obtain ⟨front, behind, whole⟩ := List.append_of_mem mem
  have steps := linked.steps_increment fits
  have kept : front.map (forest.increment step).value = front.map forest.value := by
    apply List.map_congr_left
    intro high inFront
    -- What comes before the stepped counter lies above it, and so neither is it nor lies below it.
    have below : forest.Below step high := by
      rw [← linked.acyclic.mem_ancestors_iff, linked.acyclic.ancestors_of_chain whole,
        List.mem_reverse]
      exact inFront
    have other : high ≠ step := by
      rintro rfl
      exact linked.acyclic high below
    have apart : step ∉ forest.ancestors high := by
      intro above
      exact linked.acyclic step (below.trans (linked.acyclic.mem_ancestors_iff.1 above))
    exact steps.kept high other apart
  have grown : forest.value step < (forest.increment step).value step := by
    rw [UInt32.lt_iff_toNat_lt, steps.stepped]
    omega
  rw [chainValues, chainValues, chain_congr (parents_increment forest step), whole,
    List.map_append, List.map_append, kept, List.map_cons, List.map_cons]
  apply List.append_left_lt
  exact List.cons_lt_cons_iff.2 (.inl grown)

/-- A call that steps a counter leaves the values of a chain that its step leaves. -/
theorem WellLinked.chainValues_after (linked : forest.WellLinked)
    (stepped : forest.stepped? call = some step) (counter : Text) :
    (forest.after call).chainValues counter = (forest.increment step).chainValues counter := by
  rw [chainValues, chainValues, chain_congr (parents_after forest call),
    chain_congr (parents_increment forest step)]
  exact List.map_congr_left fun name _ => linked.value_after stepped name

/-- A call makes no number smaller. -/
theorem WellLinked.chainValues_le_after (linked : forest.WellLinked)
    (fits : ∀ step ∈ forest.stepped? call, (forest.value step).toNat < UInt32.size - 1)
    (counter : Text) : forest.chainValues counter ≤ (forest.after call).chainValues counter := by
  cases stepped : forest.stepped? call with
  | none =>
    have same : (forest.after call).chainValues counter = forest.chainValues counter := by
      rw [chainValues, chainValues, chain_congr (parents_after forest call)]
      exact List.map_congr_left fun name _ => value_after_of_none stepped name
    rw [same]
    exact List.le_refl _
  | some step =>
    rw [linked.chainValues_after stepped]
    by_cases mem : step ∈ forest.chain counter
    · exact List.le_of_lt (linked.chainValues_lt_increment (fits step stepped) mem)
    · rw [linked.chainValues_increment mem]
      exact List.le_refl _

end Step

section Run

variable {calls more : List Call}

/-- A longer run goes on where its front has come to. -/
theorem run_append (forest : CounterForest) (calls more : List Call) :
    forest.run (calls ++ more) = (forest.run calls).run more := List.foldl_append

/-- A longer run fits if its front fits and what follows does. -/
theorem fits_append :
    forest.Fits (calls ++ more) ↔ forest.Fits calls ∧ (forest.run calls).Fits more := by
  induction calls generalizing forest with
  | nil => exact (and_iff_right trivial).symm
  | cons call calls ih =>
    rw [List.cons_append, Fits, Fits, ih, and_assoc]
    rfl

/-- A run gives no counter a parent. -/
theorem parents_run (forest : CounterForest) (calls : List Call) :
    (forest.run calls).parents = forest.parents := by
  induction calls generalizing forest with
  | nil => rfl
  | cons call calls ih => exact (ih (forest.after call)).trans (parents_after forest call)

/-- A run does not change how headings are written. -/
theorem flags_run (forest : CounterForest) (calls : List Call) :
    (forest.run calls).flags = forest.flags := by
  induction calls generalizing forest with
  | nil => rfl
  | cons call calls ih => exact (ih (forest.after call)).trans (flags_after forest call)

/-- A run keeps the links well. -/
theorem WellLinked.run (linked : forest.WellLinked) (calls : List Call) :
    (forest.run calls).WellLinked := by
  induction calls generalizing forest with
  | nil => exact linked
  | cons call calls ih => exact ih (linked.after call)

/-- A run makes no number smaller. -/
theorem WellLinked.chainValues_le_run (linked : forest.WellLinked) (fits : forest.Fits calls)
    (counter : Text) : forest.chainValues counter ≤ (forest.run calls).chainValues counter := by
  induction calls generalizing forest with
  | nil => exact List.le_refl _
  | cons call calls ih =>
    have first := linked.chainValues_le_after fits.1 counter
    have later := ih (linked.after call) fits.2
    exact List.le_trans first later

/-- A run fits if no value is so great that as many steps lead beyond the greatest word. -/
theorem WellLinked.fits_of_few (linked : forest.WellLinked)
    (few : ∀ name, (forest.value name).toNat + calls.length < UInt32.size) :
    forest.Fits calls := by
  induction calls generalizing forest with
  | nil => trivial
  | cons call calls ih =>
    simp only [List.length_cons] at few
    refine ⟨fun name _ => ?_, ih (linked.after call) fun name => ?_⟩
    · have less := few name
      omega
    · have less := few name
      have grows := linked.value_after_le call name
      omega

/-- A forest that so many operations make from a new one. -/
inductive ReachableIn : Nat → CounterForest → Prop
  /-- The new forest. -/
  | new : ReachableIn 0 new
  /-- One operation more. -/
  | step {operations : Nat} {forest next : CounterForest} (before : ReachableIn operations forest)
    (step : forest.Step next) : ReachableIn (operations + 1) next

variable {operations : Nat}

/-- A forest that so many operations make can be reached. -/
theorem ReachableIn.reachable (reached : ReachableIn operations forest) : forest.Reachable := by
  induction reached with
  | new => exact .refl
  | step _ step ih => exact ih.tail step

/-- No value is greater than the number of operations. -/
theorem ReachableIn.value_le (reached : ReachableIn operations forest) (name : Text) :
    (forest.value name).toNat ≤ operations := by
  induction reached with
  | new => exact Nat.le_refl 0
  | step before step ih =>
    have grows := before.reachable.wellLinked.value_step_le step name
    omega

/-- A run fits if there are fewer operations than words, counted from the new forest on. -/
theorem ReachableIn.fits (reached : ReachableIn operations forest)
    (few : operations + calls.length < UInt32.size) : forest.Fits calls := by
  apply reached.reachable.wellLinked.fits_of_few
  intro name
  have small := reached.value_le name
  omega

end Run

/-- Numbers whose values differ somewhere are written differently, unless zero stands for one in
letters. -/
theorem formattedNumber_ne {counter : Text} (chain : next.chain counter = forest.chain counter)
    (different : forest.chainValues counter ≠ next.chainValues counter)
    (positive : ∀ name ∈ forest.chain counter, forest.writesLetters name = true →
      forest.value name ≠ 0 ∧ next.value name ≠ 0) :
    forest.formattedNumber counter ≠ next.formattedNumber counter := by
  intro same
  apply different
  rw [formattedNumber_eq_iff chain.symm] at same
  rw [chainValues, chainValues, chain]
  apply List.map_congr_left
  intro name mem
  have component := same name (chain ▸ mem)
  rcases (component_eq_iff.1 component).2 with equal | ⟨inLetters, small, smallNext⟩
  · exact equal
  · obtain ⟨nonzero, nonzeroNext⟩ := positive name mem inLetters
    have one : (1 : UInt32).toNat = 1 := rfl
    rw [UInt32.le_iff_toNat_le, one] at small smallNext
    rw [Ne, ← UInt32.toNat_inj] at nonzero nonzeroNext
    have zero : (0 : UInt32).toNat = 0 := rfl
    rw [zero] at nonzero nonzeroNext
    apply UInt32.toNat_inj.1
    omega

/-- Of two statements of a run that step the same counter the later has the greater number: the
values along the chain of the counter, from the root down, are greater in the order of their first
difference. So the two numbers are written differently, unless in the appendix a zero stands for one
in letters. The run may start in any forest that can be reached, as long as no step overflows. -/
theorem Reachable.numbers_increase (reachable : forest.Reachable) {past between : List Call}
    {first second counter : Text}
    (fits : forest.Fits (past ++ [.begin first] ++ between ++ [.begin second]))
    (stepsFirst : (forest.run past).stepped? (.begin first) = some counter)
    (stepsSecond : (forest.run (past ++ [.begin first] ++ between)).stepped? (.begin second) =
      some counter) :
    let before := forest.run past
    let earlier := forest.run (past ++ [.begin first])
    let middle := forest.run (past ++ [.begin first] ++ between)
    let later := forest.run (past ++ [.begin first] ++ between ++ [.begin second])
    before.begin first = (earlier,
        earlier.heading (before.declarationOf first).caption (earlier.formattedNumber counter)) ∧
      middle.begin second = (later,
        later.heading (middle.declarationOf second).caption (later.formattedNumber counter)) ∧
      later.chain counter = earlier.chain counter ∧ later.flags = earlier.flags ∧
      (earlier.chain counter).map earlier.value < (later.chain counter).map later.value ∧
      (earlier.inAppendix = false →
        earlier.formattedNumber counter ≠ later.formattedNumber counter) ∧
      ((∀ name ∈ earlier.chain counter, name ∈ earlier.alphaRoots →
          earlier.value name ≠ 0 ∧ later.value name ≠ 0) →
        earlier.formattedNumber counter ≠ later.formattedNumber counter) := by
  intro before earlier middle later
  have isEarlier : earlier = before.after (.begin first) := forest.run_append past _
  have isMiddle : middle = earlier.run between := forest.run_append _ between
  have isLater : later = middle.after (.begin second) := forest.run_append _ _
  have linked : earlier.WellLinked := reachable.wellLinked.run _
  have middleLinked : middle.WellLinked := reachable.wellLinked.run _
  obtain ⟨fitsMiddle, fitsSecond⟩ := fits_append.1 fits
  have fitsBetween : earlier.Fits between := (fits_append.1 fitsMiddle).2
  have parents : later.parents = earlier.parents := by
    rw [isLater, parents_after, isMiddle, parents_run]
  have flags : later.flags = earlier.flags := by
    rw [isLater, flags_after, isMiddle, flags_run]
  have chain : later.chain counter = earlier.chain counter := chain_congr parents counter
  have upTo : earlier.chainValues counter ≤ middle.chainValues counter := by
    rw [isMiddle]
    exact linked.chainValues_le_run fitsBetween counter
  have last : middle.chainValues counter < later.chainValues counter := by
    have onChain : counter ∈ middle.chain counter := by simp [CounterForest.chain]
    rw [isLater, middleLinked.chainValues_after stepsSecond]
    exact middleLinked.chainValues_lt_increment (fitsSecond.1 counter stepsSecond) onChain
  have grown : earlier.chainValues counter < later.chainValues counter :=
    List.lt_of_le_of_lt upTo last
  have different : earlier.chainValues counter ≠ later.chainValues counter := by
    intro same
    rw [same] at grown
    exact List.lt_irrefl _ grown
  refine ⟨?_, ?_, chain, flags, grown, ?_, ?_⟩
  · rw [isEarlier]
    exact before.begin_of_stepped first stepsFirst
  · rw [isLater]
    exact middle.begin_of_stepped second stepsSecond
  · intro main
    apply formattedNumber_ne chain different
    intro name _ inLetters
    rw [writesLetters, main] at inLetters
    cases inLetters
  · intro positive
    apply formattedNumber_ne chain different
    intro name mem inLetters
    rw [writesLetters, Bool.and_eq_true, List.contains_iff_mem] at inLetters
    exact positive name mem inLetters.2

/-- In an appendix the number of a theorem and that of a lemma which shares its counter are
different, although the lemma is the first of its section as the theorem is. -/
theorem numbers_increase_shared_counter :
    let forest : CounterForest := { (new.numberWithin "thm".toList "section".toList).1.define
      ⟨"lem".toList, "Lemma".toList, false, some "thm".toList, none⟩ with inAppendix := true }
    let past : List Call := [.increment "section".toList]
    let between : List Call := [.begin "lem".toList, .increment "section".toList]
    let calls := past ++ [.begin "thm".toList] ++ between ++ [.begin "lem".toList]
    let earlier := forest.run (past ++ [.begin "thm".toList])
    let later := forest.run calls
    forest.Reachable ∧ forest.Fits calls ∧
      (forest.run past).stepped? (.begin "thm".toList) = some "thm".toList ∧
      (forest.run (past ++ [.begin "thm".toList] ++ between)).stepped? (.begin "lem".toList) =
        some "thm".toList ∧
      (earlier.chain "thm".toList).map earlier.value = [1, 1] ∧
      (later.chain "thm".toList).map later.value = [2, 1] ∧
      earlier.formattedNumber "thm".toList ≠ later.formattedNumber "thm".toList := by
  intro forest past between calls earlier later
  have reached : ReachableIn 3 forest :=
    ((ReachableIn.new.step (.numberWithin _ _)).step (.define _)).step (.inAppendix true)
  have fits : forest.Fits calls := reached.fits (by decide)
  have stepsFirst : (forest.run past).stepped? (.begin "thm".toList) = some "thm".toList := by
    decide +kernel
  have stepsSecond : (forest.run (past ++ [.begin "thm".toList] ++ between)).stepped?
      (.begin "lem".toList) = some "thm".toList := by decide +kernel
  have valuesFirst : (earlier.chain "thm".toList).map earlier.value = [1, 1] := by decide +kernel
  have valuesSecond : (later.chain "thm".toList).map later.value = [2, 1] := by decide +kernel
  have positive : ∀ name ∈ earlier.chain "thm".toList, name ∈ earlier.alphaRoots →
      earlier.value name ≠ 0 ∧ later.value name ≠ 0 := by decide +kernel
  obtain ⟨-, -, -, -, -, -, different⟩ :=
    reached.reachable.numbers_increase fits stepsFirst stepsSecond
  exact ⟨reached.reachable, fits, stepsFirst, stepsSecond, valuesFirst, valuesSecond,
    different positive⟩

end CounterForest
end TexStatements
