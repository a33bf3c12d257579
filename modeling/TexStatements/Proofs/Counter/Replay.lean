import TexStatements.Counter.Plan
import TexStatements.Proofs.Counter.History

/-!
# Replay of a part of a document

Sectioning commands and statements of one part are merged into a timeline in the order of their
offsets. A plan reads from it which counters are stepped, and the replay on a counter forest gives
every statement the heading that the steps up to it determine.
-/
namespace TexStatements
namespace NumberingPlan

/-- The declaration in force for an environment. Where names are distinct it is the only one. -/
def declaration? (plan : NumberingPlan) (environment : Text) : Option Declaration :=
  plan.declarations.values.reverse.find? fun declaration => declaration.name == environment

/-- The caption of an environment; an undeclared one has the default caption. -/
def caption (plan : NumberingPlan) (environment : Text) : Text :=
  match plan.declaration? environment with
  | some declaration => declaration.caption
  | none => defaultCaption environment

/-- The counter that a statement steps: none if its environment is starred, and one named after
the environment if it is undeclared. -/
def counter? (plan : NumberingPlan) (environment : Text) : Option Text :=
  match plan.declaration? environment with
  | some declaration => if declaration.starred then none else some declaration.counter
  | none => some environment

/-- How a count is written for a counter: in letters in the appendix if the counter is alphabetic,
and otherwise in decimal. -/
def write (plan : NumberingPlan) (appendix : Bool) (counter : Text) (count : Nat) : Text :=
  if appendix && plan.alphaRoots.contains counter then letters (UInt32.ofNat count)
  else numeral count

/-- How a count is written that is kept in a 32-bit word. -/
def writeWord (plan : NumberingPlan) (appendix : Bool) (counter : Text) (count : Nat) : Text :=
  plan.write appendix counter (UInt32.ofNat count).toNat

/-- A heading of a caption and a number, in the order of the plan. -/
def heading (plan : NumberingPlan) (caption number : Text) : Text :=
  if plan.swapsNumbers then number ++ ' ' :: caption else caption ++ ' ' :: number

/-- What happens at a place of a document. -/
inductive Event where
  /-- A statement begins. -/
  | statement (occurrence : Occurrence)
  /-- A sectioning command stands there. -/
  | command (marker : SectionMarker)
deriving DecidableEq

/-- The byte offset of an event. -/
def Event.offset : Event → Nat
  | statement occurrence => occurrence.offset
  | command marker => marker.offset

/-- The counter that an event steps, if it steps one. -/
def Event.counter? (plan : NumberingPlan) : Event → Option Text
  | statement occurrence => plan.counter? occurrence.environment
  | command marker => some marker.level.counter

/-- Statements and commands in the order of their offsets; a statement comes before a command of
the same offset. -/
def timeline (occurrences : List Occurrence) (markers : List SectionMarker) : List Event :=
  List.merge (occurrences.map .statement) (markers.map .command)
    fun left right => left.offset ≤ right.offset

/-- The counters that events step, in order. -/
def steps (plan : NumberingPlan) (events : List Event) : List Text :=
  events.filterMap (Event.counter? plan)

/-- The events up to a statement and including it. -/
def upTo (occurrence : Occurrence) (events : List Event) : List Event :=
  events.takeWhile (· ≠ .statement occurrence) ++ [.statement occurrence]

/-- A title is the one that the events up to a statement determine: the caption alone if the
statement is not numbered, and otherwise with the number that these events give to the lineage of
its counter. -/
def Titles (plan : NumberingPlan) (appendix : Bool) (events : List Event)
    (occurrence : Occurrence) (title : Text) : Prop :=
  match plan.counter? occurrence.environment with
  | none => title = plan.caption occurrence.environment
  | some counter => ∃ lineage, (plan.forest appendix).Lineage lineage counter ∧
      title = plan.heading (plan.caption occurrence.environment)
        (numberAlong (plan.write appendix) (plan.steps (upTo occurrence events)) [] lineage)

/-- A timeline of ordered parts is ordered. -/
theorem timeline_ordered {occurrences : List Occurrence} {markers : List SectionMarker}
    (statements : occurrences.Pairwise fun left right => left.offset < right.offset)
    (commands : markers.Pairwise fun left right => left.offset ≤ right.offset) :
    (timeline occurrences markers).Pairwise fun left right => left.offset ≤ right.offset := by
  have transitive : ∀ first second third : Event, decide (first.offset ≤ second.offset) = true →
      decide (second.offset ≤ third.offset) = true →
      decide (first.offset ≤ third.offset) = true := by
    intro first second third before after
    simp only [decide_eq_true_eq] at before after ⊢
    exact Nat.le_trans before after
  have total : ∀ left right : Event,
      (decide (left.offset ≤ right.offset) || decide (right.offset ≤ left.offset)) = true := by
    intro left right
    simp only [Bool.or_eq_true, decide_eq_true_eq]
    exact Nat.le_total _ _
  have merged := List.pairwise_merge transitive total
    (occurrences.map Event.statement) (markers.map Event.command)
    (List.pairwise_map.2 (statements.imp fun less => decide_eq_true (Nat.le_of_lt less)))
    (List.pairwise_map.2 (commands.imp fun atMost => decide_eq_true atMost))
  exact merged.imp fun ordered => by simpa using ordered

/-- A timeline holds the statements and the commands, and nothing else. -/
theorem timeline_perm (occurrences : List Occurrence) (markers : List SectionMarker) :
    (timeline occurrences markers).Perm
      (occurrences.map .statement ++ markers.map .command) :=
  List.merge_perm_append _

section Start

/-- The flags of the forests that a plan numbers a part with. -/
def flags (plan : NumberingPlan) (appendix : Bool) : Bool × Bool × List Text :=
  (plan.swapsNumbers, appendix, plan.alphaRoots)

/-- The operations that build the forest of a plan: whatever the start has and registering
environments and adding edges keep, the forest of the plan has. -/
theorem forest_induction {motive : CounterForest → Prop} (plan : NumberingPlan) (appendix : Bool)
    (start : motive { CounterForest.new with
      swapped := plan.swapsNumbers
      inAppendix := appendix
      alphaRoots := plan.alphaRoots })
    (numberWithin : ∀ forest child parent, motive forest →
      motive (forest.numberWithin child parent).1)
    (define : ∀ forest, ∀ declaration ∈ plan.declarations.values, motive forest →
      motive (forest.define declaration)) :
    motive (plan.forest appendix) := by
  unfold NumberingPlan.forest
  refine List.foldlRecOn _ _ (List.foldlRecOn _ _ ?_ ?_) ?_
  · refine numberWithin _ _ _ (numberWithin _ _ _ ?_)
    split
    · exact numberWithin _ _ _ start
    · exact start
  · intro forest kept declaration member
    exact define forest declaration member kept
  · intro forest kept edge _
    exact numberWithin forest edge.1 edge.2 kept

/-- The forest of a plan has the flags of the plan. -/
theorem flags_forest (plan : NumberingPlan) (appendix : Bool) :
    (plan.forest appendix).flags = plan.flags appendix :=
  forest_induction (motive := fun forest => forest.flags = plan.flags appendix) plan appendix rfl
    (fun forest child parent kept => (forest.flags_numberWithin child parent).trans kept)
    (fun forest declaration _ kept => (forest.flags_define declaration).trans kept)

/-- In the forest of a plan every counter is zero. -/
theorem value_forest (plan : NumberingPlan) (appendix : Bool) :
    ∀ counter, (plan.forest appendix).value counter = 0 :=
  forest_induction (motive := fun forest => ∀ counter, forest.value counter = 0) plan appendix
    (fun counter => by simp [CounterForest.value, CounterForest.new])
    (fun forest child parent zero counter => by rw [forest.value_numberWithin, zero])
    (fun forest declaration _ zero counter => by rw [forest.value_define, zero])

/-- The links of the forest of a plan are kept well. -/
theorem wellLinked_forest (plan : NumberingPlan) (appendix : Bool) :
    (plan.forest appendix).WellLinked :=
  forest_induction plan appendix (CounterForest.wellLinked_new.congr rfl rfl)
    (fun _ child parent linked => linked.numberWithin child parent)
    (fun _ declaration _ linked => linked.define declaration)

/-- Registering declarations in order leaves the last one of a name in force. -/
theorem find?_environments_foldl_define (declarations : List Declaration)
    (forest : CounterForest) (environment : Text) :
    (declarations.foldl CounterForest.define forest).environments.find? environment =
      (declarations.reverse.find? fun declaration => declaration.name == environment).or
        (forest.environments.find? environment) := by
  induction declarations generalizing forest with
  | nil => rfl
  | cons declaration more ih =>
    rw [List.foldl_cons, ih, CounterForest.environments_define, NameMap.find?_insert,
      List.reverse_cons, List.find?_append, Option.or_assoc]
    congr 1
    by_cases same : declaration.name = environment <;> simp [same]

/-- The forest of a plan knows the declarations in force. -/
theorem find?_environments_forest (plan : NumberingPlan) (appendix : Bool) (environment : Text) :
    (plan.forest appendix).environments.find? environment = plan.declaration? environment := by
  unfold NumberingPlan.forest
  have edges (link : CounterForest → Text × Text → CounterForest)
      (keeps : ∀ forest edge, (link forest edge).environments = forest.environments)
      (list : List (Text × Text)) (forest : CounterForest) :
      (list.foldl link forest).environments = forest.environments := by
    induction list generalizing forest with
    | nil => rfl
    | cons edge more ih => rw [List.foldl_cons, ih, keeps]
  rw [edges _ fun forest edge => forest.environments_numberWithin edge.1 edge.2,
    find?_environments_foldl_define]
  cases plan.hasChapters <;> simp [nest, declaration?, CounterForest.new]

end Start

section Run

variable {plan : NumberingPlan} {appendix : Bool} {forest : CounterForest} {past : List Event}

/-- The declaration by which a statement of an environment is numbered: the one in force, or one
with a counter of its own. -/
def declarationOf (plan : NumberingPlan) (environment : Text) : Declaration :=
  (plan.declaration? environment).getD (Declaration.new environment [] false)

/-- The caption of an environment is that of its declaration. -/
theorem caption_declarationOf (plan : NumberingPlan) (environment : Text) :
    (plan.declarationOf environment).caption = plan.caption environment := by
  unfold declarationOf caption
  cases plan.declaration? environment <;> rfl

/-- The counter of an environment is that of its declaration, unless that is starred. -/
theorem counter?_eq (plan : NumberingPlan) (environment : Text) :
    plan.counter? environment =
      if (plan.declarationOf environment).starred then none
      else some (plan.declarationOf environment).counter := by
  unfold declarationOf counter?
  cases plan.declaration? environment <;> rfl

/-- A forest has come as far in the replay of a plan as the events so far say: its links and flags
are those that the replay started with, and its values count the steps. -/
structure Replayed (plan : NumberingPlan) (appendix : Bool) (past : List Event)
    (forest : CounterForest) : Prop where
  /-- Child lists mirror the parents. -/
  linked : forest.WellLinked
  /-- The parents are those of the start. -/
  parents : forest.parents = (plan.forest appendix).parents
  /-- The flags are those of the plan. -/
  flags : forest.flags = plan.flags appendix
  /-- Environments are numbered by the declarations of the plan. -/
  declared : ∀ environment, forest.declarationOf environment = plan.declarationOf environment
  /-- The values count the steps so far. -/
  counts : forest.Counts (plan.steps past)

/-- Counts that fit into a word are written as they are. -/
theorem writeWord_eq_write (plan : NumberingPlan) (appendix : Bool) {steps : List Text}
    (few : steps.length < UInt32.size) (counter : Text) (above : List Text) :
    plan.writeWord appendix counter (stepsSince above counter steps) =
      plan.write appendix counter (stepsSince above counter steps) := by
  have bound := stepsSince_le_length above counter steps
  have fits : (UInt32.ofNat (stepsSince above counter steps)).toNat =
      stepsSince above counter steps :=
    Nat.mod_eq_of_lt (Nat.lt_of_le_of_lt bound few)
  rw [writeWord, fits]

/-- The replay starts with no event. -/
theorem replayed_start (plan : NumberingPlan) (appendix : Bool) :
    Replayed plan appendix [] (plan.forest appendix).takeWarnings.1 where
  linked := (wellLinked_forest plan appendix).congr rfl rfl
  parents := rfl
  flags := flags_forest plan appendix
  declared environment := by
    rw [CounterForest.declarationOf, declarationOf, ← find?_environments_forest plan appendix]
    rfl
  counts counter := by
    have zero : ((plan.forest appendix).takeWarnings.1).value counter = 0 :=
      value_forest plan appendix counter
    rw [zero]
    rfl

/-- A step of a counter goes on in the replay with an event that steps it. -/
theorem Replayed.increment (replayed : Replayed plan appendix past forest) (event : Event)
    {counter : Text} (stepped : event.counter? plan = some counter) :
    Replayed plan appendix (past ++ [event]) (forest.increment counter) := by
  have whole : plan.steps (past ++ [event]) = plan.steps past ++ [counter] := by
    simp [steps, stepped]
  refine ⟨replayed.linked.congr rfl rfl, replayed.parents, replayed.flags, replayed.declared, ?_⟩
  rw [whole]
  exact replayed.counts.increment replayed.linked counter

/-- Registering an undeclared environment changes nothing that the replay depends on. -/
theorem Replayed.ensureEnvironment (replayed : Replayed plan appendix past forest)
    (environment : Text) :
    Replayed plan appendix past (forest.ensureEnvironment environment) := by
  have parents := forest.parents_ensureEnvironment environment
  refine ⟨replayed.linked.ensureEnvironment environment, parents.trans replayed.parents,
    (forest.flags_ensureEnvironment environment).trans replayed.flags, ?_, ?_⟩
  · intro other
    rw [forest.declarationOf_ensureEnvironment, replayed.declared]
  · intro counter
    rw [CounterForest.ancestors_congr parents, forest.value_ensureEnvironment]
    exact replayed.counts counter

/-- The commands before a statement are stepped in order, and those that are left are stepped
after it. -/
theorem Replayed.advance {markers : List SectionMarker}
    (replayed : Replayed plan appendix past forest) (occurrence : Occurrence) :
    ∃ before, markers = before ++ (NumberingPlan.advance occurrence.offset forest markers).2 ∧
      (∀ marker ∈ before, marker.offset < occurrence.offset) ∧
      (∀ marker ∈ (NumberingPlan.advance occurrence.offset forest markers).2.head?,
        occurrence.offset ≤ marker.offset) ∧
      Replayed plan appendix (past ++ before.map .command)
        (NumberingPlan.advance occurrence.offset forest markers).1 := by
  induction markers generalizing forest past with
  | nil => exact ⟨[], rfl, by simp, by simp [NumberingPlan.advance],
      by simpa [NumberingPlan.advance] using replayed⟩
  | cons marker more ih =>
    rw [NumberingPlan.advance]
    split
    · rename_i earlier
      obtain ⟨before, whole, less, later, further⟩ :=
        ih (replayed.increment (.command marker) rfl)
      refine ⟨marker :: before, congrArg (marker :: ·) whole, ?_, later, by simpa using further⟩
      intro other member
      rcases List.mem_cons.1 member with rfl | inside
      · exact earlier
      · exact less other inside
    · rename_i later
      exact ⟨[], rfl, by simp, by simpa using later, by simpa using replayed⟩

/-- The commands before the first statement come first in a timeline, and then the statement. -/
theorem merge_cons {events commands : List Event} (statement : Event) (before : List Event)
    (earlier : ∀ event ∈ before, event.offset < statement.offset)
    (later : ∀ event ∈ commands.head?, statement.offset ≤ event.offset) :
    List.merge (statement :: events) (before ++ commands)
        (fun left right => left.offset ≤ right.offset) =
      before ++ statement :: List.merge events commands
        fun left right => left.offset ≤ right.offset := by
  induction before with
  | nil =>
    cases commands with
    | nil => simp
    | cons command more =>
      have first : statement.offset ≤ command.offset := later command (by simp)
      simp [first]
  | cons event before ih =>
    have apart : ¬statement.offset ≤ event.offset := by
      have := earlier event List.mem_cons_self
      omega
    rw [List.cons_append, List.cons_merge_cons, if_neg (by simpa using apart),
      ih fun other member => earlier other (List.mem_cons_of_mem _ member)]
    rfl

/-- A timeline starts with the commands before its first statement, if those that are left are not
before it. -/
theorem timeline_cons {occurrence : Occurrence} {more : List Occurrence}
    {before left : List SectionMarker}
    (earlier : ∀ marker ∈ before, marker.offset < occurrence.offset)
    (later : ∀ marker ∈ left.head?, occurrence.offset ≤ marker.offset) :
    timeline (occurrence :: more) (before ++ left) =
      before.map .command ++ .statement occurrence :: timeline more left := by
  rw [timeline, List.map_append]
  apply merge_cons (.statement occurrence) (before.map .command)
  · intro event member
    obtain ⟨marker, inside, rfl⟩ := List.mem_map.1 member
    exact earlier marker inside
  · intro event member
    rw [List.head?_map] at member
    obtain ⟨marker, inside, rfl⟩ := Option.map_eq_some_iff.1 member
    exact later marker inside

/-- The events up to a statement behind a front without it. -/
theorem upTo_append {occurrence : Occurrence} {front events : List Event}
    (absent : .statement occurrence ∉ front) :
    upTo occurrence (front ++ events) = front ++ upTo occurrence events := by
  have passed : (front ++ events).takeWhile (· ≠ .statement occurrence) =
      front ++ events.takeWhile (· ≠ .statement occurrence) := by
    refine List.takeWhile_append_of_pos fun event member => ?_
    simp only [ne_eq, decide_not, Bool.not_eq_true', decide_eq_false_iff_not]
    rintro rfl
    exact absent member
  rw [upTo, passed, upTo, List.append_assoc]

/-- A statement takes the title that the events up to it determine, and counts as an event. -/
theorem Replayed.begin (replayed : Replayed plan appendix past forest)
    (occurrence : Occurrence) :
    Replayed plan appendix (past ++ [.statement occurrence])
        (forest.begin occurrence.environment).1 ∧
      match plan.counter? occurrence.environment with
      | none => (forest.begin occurrence.environment).2 = plan.caption occurrence.environment
      | some counter => ∃ lineage, (plan.forest appendix).Lineage lineage counter ∧
          (forest.begin occurrence.environment).2 =
            plan.heading (plan.caption occurrence.environment)
              (numberAlong (plan.writeWord appendix)
                (plan.steps (past ++ [.statement occurrence])) [] lineage) := by
  have ensured := replayed.ensureEnvironment occurrence.environment
  unfold CounterForest.begin
  generalize forest.ensureEnvironment occurrence.environment = forest at ensured ⊢
  have known := plan.counter?_eq occurrence.environment
  rw [← plan.caption_declarationOf]
  dsimp only
  rw [ensured.declared]
  split
  · rename_i starred
    rw [if_pos starred] at known
    have unmoved : plan.steps (past ++ [.statement occurrence]) = plan.steps past := by
      simp [steps, Event.counter?, known]
    rw [known]
    exact ⟨⟨ensured.linked, ensured.parents, ensured.flags, ensured.declared,
      unmoved ▸ ensured.counts⟩, rfl⟩
  · rename_i numbered
    rw [if_neg numbered] at known
    rw [known]
    have stepped := ensured.increment (.statement occurrence) known
    refine ⟨stepped, ?_⟩
    generalize forest.increment (plan.declarationOf occurrence.environment).counter = forest
      at stepped ⊢
    have sameFlags := stepped.flags
    simp only [CounterForest.flags, NumberingPlan.flags, Prod.mk.injEq] at sameFlags
    obtain ⟨swapped, inAppendix, alphaRoots⟩ := sameFlags
    have line := stepped.linked.acyclic.lineage_chain
      (plan.declarationOf occurrence.environment).counter
    refine ⟨_, line.congr stepped.parents.symm, ?_⟩
    have number := stepped.counts.formattedNumber_eq stepped.linked.acyclic line
      (plan.writeWord appendix) fun name count value => by
        simp only [CounterForest.component, writeWord, write, inAppendix, alphaRoots, value,
          UInt32.ofNat_toNat]
    rw [number, CounterForest.heading, heading, swapped]

/-- The title that a statement takes is the one that the events up to it determine, whatever
happens behind it. -/
theorem Replayed.titles (replayed : Replayed plan appendix past forest) {occurrence : Occurrence}
    (absent : .statement occurrence ∉ past)
    (few : (plan.steps (past ++ [.statement occurrence])).length < UInt32.size)
    (behind : List Event) :
    plan.Titles appendix (past ++ [.statement occurrence] ++ behind) occurrence
      (forest.begin occurrence.environment).2 := by
  have front : upTo occurrence (past ++ [.statement occurrence] ++ behind) =
      past ++ [.statement occurrence] := by
    rw [List.append_assoc, upTo_append absent]
    simp [upTo]
  obtain ⟨-, title⟩ := replayed.begin occurrence
  rw [Titles, front]
  cases stepped : plan.counter? occurrence.environment with
  | none => simpa only [stepped] using title
  | some counter =>
    rw [stepped] at title
    obtain ⟨lineage, line, title⟩ := title
    have word := plan.writeWord_eq_write appendix few
    exact ⟨lineage, line, title.trans (by rw [numberAlong_congr word])⟩

/-- The headings of the statements that are left are the titles that the events so far and those
that are left determine. -/
theorem Replayed.headings {occurrences : List Occurrence} {markers : List SectionMarker}
    (replayed : Replayed plan appendix past forest)
    (ordered : occurrences.Pairwise fun left right => left.offset < right.offset)
    (fresh : ∀ occurrence ∈ occurrences, .statement occurrence ∉ past)
    (few : (plan.steps (past ++ timeline occurrences markers)).length < UInt32.size) :
    List.Forall₂ (plan.Titles appendix (past ++ timeline occurrences markers)) occurrences
      (NumberingPlan.headings forest markers occurrences) := by
  induction occurrences generalizing forest past markers with
  | nil => exact .nil
  | cons occurrence more ih =>
    obtain ⟨before, split, earlier, later, advanced⟩ := replayed.advance occurrence
    rw [NumberingPlan.headings]
    generalize NumberingPlan.advance occurrence.offset forest markers = state
      at split later advanced ⊢
    obtain ⟨forest, left⟩ := state
    dsimp only at split later advanced ⊢
    have events : past ++ timeline (occurrence :: more) markers =
        past ++ before.map .command ++ [.statement occurrence] ++ timeline more left := by
      simp [split, timeline_cons earlier later]
    have absent : .statement occurrence ∉ past ++ before.map Event.command := by
      simp [fresh occurrence List.mem_cons_self]
    rw [events] at few ⊢
    have reached : (plan.steps (past ++ before.map .command ++
        [.statement occurrence])).length < UInt32.size := by
      simp only [steps, List.filterMap_append, List.length_append] at few ⊢
      omega
    rw [List.pairwise_cons] at ordered
    refine .cons (advanced.titles absent reached _) ?_
    refine ih (advanced.begin occurrence).1 ordered.2 ?_ few
    intro other member
    have apart : other ≠ occurrence := by
      rintro rfl
      exact Nat.lt_irrefl _ (ordered.1 other member)
    simp [fresh other (List.mem_cons_of_mem _ member), apart]

end Run

/-- The statements and the commands without a star make one ordered timeline, which determines the
titles of the statements: each count in a number is that of the events which step the counter, up
to the statement and after the last event that steps a counter above it. -/
theorem number_titles (plan : NumberingPlan) (occurrences : List Occurrence)
    (markers : List SectionMarker) (appendix : Bool)
    (statements : occurrences.Pairwise fun left right => left.offset < right.offset)
    (commands : markers.Pairwise fun left right => left.offset ≤ right.offset)
    (few : (plan.steps (timeline occurrences
      (markers.filter fun marker => !marker.starred))).length < UInt32.size) :
    let events := timeline occurrences (markers.filter fun marker => !marker.starred)
    events.Perm (occurrences.map .statement ++
        (markers.filter fun marker => !marker.starred).map .command) ∧
      (events.Pairwise fun left right => left.offset ≤ right.offset) ∧
      List.Forall₂ (plan.Titles appendix events) occurrences
        (plan.number occurrences markers appendix).1 := by
  have start := replayed_start plan appendix
  refine ⟨timeline_perm _ _, timeline_ordered statements (commands.filter _), ?_⟩
  exact start.headings statements (by simp) few

/-- A plan in which two environments share a counter that sections reset, and its part with two
numbered sections and three statements. -/
def sharedPlan : NumberingPlan where
  declarations := NameMap.ofList
    [("thm".toList,
        { Declaration.new "thm".toList [] false with within? := some "section".toList }),
      ("lem".toList, { Declaration.new "lem".toList [] false with shared? := some "thm".toList })]
  counterEdges := []
  swapsNumbers := false
  hasChapters := false
  alphaRoots := ["section".toList]

/-- The statements of that part. -/
def sharedStatements : List Occurrence :=
  [⟨"thm".toList, 10, 15, [], .appendix, 0⟩, ⟨"lem".toList, 20, 25, [], .appendix, 1⟩,
    ⟨"lem".toList, 40, 45, [], .appendix, 2⟩]

/-- The commands of that part; the last one has a star. -/
def sharedMarkers : List SectionMarker :=
  [⟨.section, 5, false⟩, ⟨.section, 30, false⟩, ⟨.section, 35, true⟩]

/-- A shared counter starts again in the second section of an appendix, whose letter the section
with a star does not step. -/
theorem number_titles_shared_in_appendix :
    let events := timeline sharedStatements (sharedMarkers.filter fun marker => !marker.starred)
    (sharedPlan.steps events).length < UInt32.size ∧
      (sharedPlan.number sharedStatements sharedMarkers true).1 =
        ["Theorem A.1.", "Lemma A.2.", "Lemma B.1."].map String.toList ∧
      List.Forall₂ (sharedPlan.Titles true events) sharedStatements
        (sharedPlan.number sharedStatements sharedMarkers true).1 := by
  have few : (sharedPlan.steps (timeline sharedStatements
      (sharedMarkers.filter fun marker => !marker.starred))).length < UInt32.size := by
    simp only [timeline, sharedStatements, sharedMarkers, List.filter_cons, List.filter_nil,
      Bool.not_false, Bool.not_true, Bool.false_eq_true, ↓reduceIte, List.map_cons, List.map_nil,
      List.cons_merge_cons, Event.offset, Nat.reduceLeDiff, decide_true, decide_false,
      List.merge_right]
    decide +kernel
  exact ⟨few, by decide +kernel, (number_titles sharedPlan sharedStatements sharedMarkers true
    (by decide) (by decide) few).2.2⟩

end NumberingPlan
end TexStatements
