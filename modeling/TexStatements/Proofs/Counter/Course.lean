import TexStatements.Proofs.Counter.Edges
import TexStatements.Proofs.Counter.Increase
import TexStatements.Proofs.Counter.Replay

/-!
# The course of numbering

A part of a document is numbered statement by statement. The course keeps, beside the title of each
statement, the forest that the title was taken from. In this way the values in two titles can be
compared: the history of the later one goes on from that of the earlier one.
-/
namespace TexStatements
namespace NumberingPlan

/-- A statement as it was numbered. -/
structure Numbered where
  /-- The occurrence. -/
  occurrence : Occurrence
  /-- The counters once the statement has begun. -/
  forest : CounterForest
  /-- The title. -/
  title : Text

/-- The occurrences in order as they are numbered, given the numbered commands that are left. -/
def course : CounterForest → List SectionMarker → List Occurrence → List Numbered
  | _, _, [] => []
  | forest, markers, occurrence :: occurrences =>
    let (forest, markers) := advance occurrence.offset forest markers
    let (forest, title) := forest.begin occurrence.environment
    ⟨occurrence, forest, title⟩ :: course forest markers occurrences

/-- The course of a part of a document. -/
def numbered (plan : NumberingPlan) (occurrences : List Occurrence)
    (markers : List SectionMarker) (appendix : Bool) : List Numbered :=
  course (plan.forest appendix).takeWarnings.1 (markers.filter fun marker => !marker.starred)
    occurrences

/-- The course goes through the occurrences. -/
@[simp] theorem map_occurrence_course (forest : CounterForest) (markers : List SectionMarker)
    (occurrences : List Occurrence) :
    (course forest markers occurrences).map (·.occurrence) = occurrences := by
  induction occurrences generalizing forest markers with
  | nil => rfl
  | cons occurrence more ih => rw [course, List.map_cons, ih]

/-- Its titles are the headings. -/
@[simp] theorem map_title_course (forest : CounterForest) (markers : List SectionMarker)
    (occurrences : List Occurrence) :
    (course forest markers occurrences).map (·.title) = headings forest markers occurrences := by
  induction occurrences generalizing forest markers with
  | nil => rfl
  | cons occurrence more ih => rw [course, headings, List.map_cons, ih]

/-- The course of a part goes through its occurrences. -/
@[simp] theorem map_occurrence_numbered (plan : NumberingPlan) (occurrences : List Occurrence)
    (markers : List SectionMarker) (appendix : Bool) :
    (plan.numbered occurrences markers appendix).map (·.occurrence) = occurrences :=
  map_occurrence_course _ _ _

/-- The titles of the course of a part are its headings. -/
@[simp] theorem map_title_numbered (plan : NumberingPlan) (occurrences : List Occurrence)
    (markers : List SectionMarker) (appendix : Bool) :
    (plan.numbered occurrences markers appendix).map (·.title) =
      (plan.number occurrences markers appendix).1 := map_title_course _ _ _

section Run

variable {plan : NumberingPlan} {appendix : Bool} {forest : CounterForest} {past : List Event}

/-- The title of a statement with this number, or without one. -/
def titleOf (plan : NumberingPlan) (environment : Text) (number : Text → Text) : Text :=
  match plan.counter? environment with
  | none => plan.caption environment
  | some counter => plan.heading (plan.caption environment) (number counter)

/-- A title contains the caption. -/
theorem caption_infix_titleOf (plan : NumberingPlan) (environment : Text) (number : Text → Text) :
    plan.caption environment <:+: plan.titleOf environment number := by
  unfold titleOf heading
  split
  · exact List.infix_refl _
  · split
    · exact ((List.suffix_cons ' ' _).trans (List.suffix_append _ _)).isInfix
    · exact (List.prefix_append _ _).isInfix

/-- Titles with one caption are the same exactly when their numbers are. -/
theorem titleOf_eq_iff {environment other counter : Text} {number otherNumber : Text → Text}
    (first : plan.counter? environment = some counter)
    (second : plan.counter? other = some counter)
    (caption : plan.caption environment = plan.caption other) :
    plan.titleOf environment number = plan.titleOf other otherNumber ↔
      number counter = otherNumber counter := by
  rw [titleOf, titleOf, first, second, caption]
  dsimp only
  unfold heading
  split
  · exact List.append_left_inj _
  · simp only [List.append_right_inj, List.cons.injEq, true_and]

/-- A statement takes the number that its counter then has. -/
theorem Replayed.begin_title (replayed : Replayed plan appendix past forest)
    (environment : Text) :
    (forest.begin environment).2 =
      plan.titleOf environment (forest.begin environment).1.formattedNumber := by
  have ensured := replayed.ensureEnvironment environment
  unfold CounterForest.begin titleOf
  generalize forest.ensureEnvironment environment = forest at ensured ⊢
  have sameFlags := ensured.flags
  simp only [CounterForest.flags, NumberingPlan.flags, Prod.mk.injEq] at sameFlags
  dsimp only
  rw [ensured.declared, plan.counter?_eq, ← plan.caption_declarationOf]
  split
  · rfl
  · dsimp only
    rw [CounterForest.heading, NumberingPlan.heading, ← sameFlags.1]
    rfl

/-- A statement was numbered after some events: its forest has come as far as they and the
statement lead, and its title has the number that its counter has there. -/
structure Numbered.After (plan : NumberingPlan) (appendix : Bool) (past : List Event)
    (statement : Numbered) : Prop where
  /-- The forest has come as far. -/
  replayed : Replayed plan appendix (past ++ [.statement statement.occurrence]) statement.forest
  /-- The title is the one that the forest then gives. -/
  title : statement.title =
    plan.titleOf statement.occurrence.environment statement.forest.formattedNumber

/-- One statement was numbered before another in a part of the document with so many events. -/
def Precedes (plan : NumberingPlan) (appendix : Bool) (events : Nat)
    (earlier later : Numbered) : Prop :=
  ∃ past between, earlier.After plan appendix past ∧
    later.After plan appendix (past ++ [.statement earlier.occurrence] ++ between) ∧
    (past ++ [Event.statement earlier.occurrence] ++ between).length < events

/-- Every statement of a course is numbered after some of the events, and every earlier one before
every later one. -/
theorem Replayed.course (replayed : Replayed plan appendix past forest)
    (occurrences : List Occurrence) (markers : List SectionMarker) :
    (∀ statement ∈ NumberingPlan.course forest markers occurrences, ∃ between,
      statement.After plan appendix (past ++ between) ∧
        between.length < occurrences.length + markers.length) ∧
    (NumberingPlan.course forest markers occurrences).Pairwise
      (Precedes plan appendix (past.length + occurrences.length + markers.length)) := by
  induction occurrences generalizing forest past markers with
  | nil => simp [NumberingPlan.course]
  | cons occurrence more ih =>
    obtain ⟨before, split, -, -, advanced⟩ := replayed.advance occurrence
    rw [NumberingPlan.course]
    generalize NumberingPlan.advance occurrence.offset forest markers = state at split advanced ⊢
    obtain ⟨forest, left⟩ := state
    dsimp only at split advanced ⊢
    have here : Numbered.After plan appendix (past ++ before.map .command)
        ⟨occurrence, (forest.begin occurrence.environment).1,
          (forest.begin occurrence.environment).2⟩ :=
      ⟨(advanced.begin occurrence).1, advanced.begin_title occurrence.environment⟩
    obtain ⟨behind, ordered⟩ := ih here.replayed left
    have count : markers.length = before.length + left.length := by
      rw [split, List.length_append]
    refine ⟨?_, List.pairwise_cons.2 ⟨?_, ?_⟩⟩
    · intro statement mem
      rcases List.mem_cons.1 mem with rfl | isLater
      · refine ⟨before.map .command, here, ?_⟩
        simp only [List.length_map, List.length_cons]
        omega
      · obtain ⟨between, after, few⟩ := behind statement isLater
        refine ⟨before.map .command ++ [.statement occurrence] ++ between,
          by simpa using after, ?_⟩
        simp only [List.length_append, List.length_map, List.length_cons, List.length_nil]
        omega
    · intro later isLater
      obtain ⟨between, after, few⟩ := behind later isLater
      refine ⟨_, between, here, after, ?_⟩
      simp only [List.length_append, List.length_map, List.length_cons, List.length_nil]
      omega
    · refine ordered.imp fun {earlier later} precedes => ?_
      obtain ⟨before, between, first, second, few⟩ := precedes
      refine ⟨before, between, first, second, Nat.lt_of_lt_of_le few ?_⟩
      simp only [List.length_append, List.length_map, List.length_cons, List.length_nil]
      omega

/-- Every statement of a part has a title that contains its caption. -/
theorem caption_infix_numbered (plan : NumberingPlan) (occurrences : List Occurrence)
    (markers : List SectionMarker) (appendix : Bool) :
    ∀ statement ∈ plan.numbered occurrences markers appendix,
      plan.caption statement.occurrence.environment <:+: statement.title := by
  intro statement mem
  obtain ⟨between, after, -⟩ := ((replayed_start plan appendix).course _ _).1 statement mem
  rw [after.title]
  exact plan.caption_infix_titleOf _ _

/-- The steps of events in a row. -/
theorem steps_append (plan : NumberingPlan) (events more : List Event) :
    plan.steps (events ++ more) = plan.steps events ++ plan.steps more := List.filterMap_append

/-- Of two statements that step one counter the later has the greater number: along the chain of
the counter the values are the same up to one that is greater. -/
theorem Precedes.increase {earlier later : Numbered} {events : Nat} {counter : Text}
    (precedes : Precedes plan appendix events earlier later) (few : events < UInt32.size)
    (stepped : plan.counter? later.occurrence.environment = some counter) :
    ∃ front name behind, earlier.forest.chain counter = front ++ name :: behind ∧
      (∀ high ∈ front, earlier.forest.value high = later.forest.value high) ∧
      earlier.forest.value name < later.forest.value name := by
  obtain ⟨past, between, first, second, bound⟩ := precedes
  have history : plan.steps (past ++ [.statement earlier.occurrence] ++ between ++
      [.statement later.occurrence]) =
      plan.steps (past ++ [.statement earlier.occurrence]) ++
        (plan.steps between ++ [counter]) := by
    have last : plan.steps [.statement later.occurrence] = [counter] := by
      simp [steps, Event.counter?, stepped]
    rw [steps_append, steps_append, last, List.append_assoc]
  have counts := second.replayed.counts
  have length := List.length_filterMap_le (Event.counter? plan)
    (past ++ [.statement earlier.occurrence] ++ between ++ [.statement later.occurrence])
  rw [history] at counts
  rw [← steps, history] at length
  simp only [List.length_append, List.length_singleton] at length bound
  exact first.replayed.counts.increase counts first.replayed.linked.acyclic
    (second.replayed.parents.trans first.replayed.parents.symm) (by simp) (by
      simp only [List.length_append, List.length_singleton]
      omega)

end Run

end NumberingPlan

namespace CounterForest

variable (forest : CounterForest) (flag : Bool)

/-- A forest for the main part of a document or for its appendix. -/
def inPart (forest : CounterForest) (flag : Bool) : CounterForest :=
  { forest with inAppendix := flag }

/-- A counter is entered alike in both parts. -/
theorem ensure_inPart (counter : Text) :
    (forest.inPart flag).ensure counter = (forest.ensure counter).inPart flag := by
  unfold ensure
  rw [apply_ite fun forest : CounterForest => forest.inPart flag]
  rfl

/-- An edge is taken in both parts or in none. -/
theorem numberWithin_inPart (child parent : Text) :
    (forest.inPart flag).numberWithin child parent =
      ((forest.numberWithin child parent).1.inPart flag,
        (forest.numberWithin child parent).2) := by
  have parents (other : CounterForest) : (other.inPart flag).parents = other.parents := rfl
  unfold numberWithin closesCycle
  rw [ensure_inPart, ensure_inPart]
  dsimp only
  rw [ancestors_congr (parents _)]
  split <;> rfl

/-- An environment is registered alike in both parts. -/
theorem define_inPart (declaration : Declaration) :
    (forest.inPart flag).define declaration = (forest.define declaration).inPart flag := by
  unfold define
  rw [ensure_inPart]
  cases declaration.within? with
  | none => rfl
  | some parent =>
    dsimp only
    rw [numberWithin_inPart]
    rfl

end CounterForest

/-- Both parts of a document start with the same counters. -/
theorem NumberingPlan.forest_inPart (plan : NumberingPlan) (appendix : Bool) :
    plan.forest appendix = (plan.forest false).inPart appendix := by
  have edge (forest : CounterForest) (child parent : Text) :
      ((forest.inPart appendix).numberWithin child parent).1 =
        (forest.numberWithin child parent).1.inPart appendix := by
    rw [CounterForest.numberWithin_inPart]
  have levels : plan.levels appendix = (plan.levels false).inPart appendix := by
    unfold NumberingPlan.levels nest
    cases plan.hasChapters with
    | false =>
      simp only [Bool.false_eq_true, ↓reduceIte]
      rw [← edge, ← edge]
      rfl
    | true =>
      simp only [↓reduceIte]
      rw [← edge, ← edge, ← edge]
      rfl
  calc plan.forest appendix
      = plan.counterEdges.foldl (fun forest edge => (forest.numberWithin edge.1 edge.2).1)
          (plan.declarations.values.foldl CounterForest.define
            ((plan.levels false).inPart appendix)) := by rw [← levels]; rfl
    _ = (plan.forest false).inPart appendix := by
      rw [List.foldl_hom (CounterForest.inPart · appendix) fun forest declaration =>
          CounterForest.define_inPart forest appendix declaration,
        List.foldl_hom (CounterForest.inPart · appendix) fun forest one => edge forest one.1 one.2]
      rfl

end TexStatements
