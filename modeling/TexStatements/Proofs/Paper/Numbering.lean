import TexStatements.Proofs.Counter.Edges
import TexStatements.Proofs.Counter.Replay
import TexStatements.Proofs.Paper.Normalization

/-!
# Numbering of a paper

The counters of a paper are linked as its kinds say, and no edge between them is refused. Replaying
the items of a part in order gives every statement the title that the items up to it determine.
-/
namespace TexStatements
namespace Paper

section Kinds

variable {paper : Paper} {kind : Kind}

/-- A kind is found by its name. -/
theorem WellFormed.kind?_name (wellFormed : paper.WellFormed) (declared : kind ∈ paper.kinds) :
    paper.kind? kind.name = some kind := find?_of_nodup Kind.name wellFormed.distinct declared

/-- The name of a kind is not that of a level. -/
theorem WellFormed.name_ne_counter (wellFormed : paper.WellFormed) (declared : kind ∈ paper.kinds)
    (level : SectionLevel) : kind.name ≠ level.counter := by
  apply wellFormed.ne_reserved declared
  cases level <;> decide

end Kinds

section Plan

variable {paper : Paper} {kind : Kind}

/-- The plan by which a paper is numbered. -/
def WellFormed.plan (wellFormed : paper.WellFormed) : NumberingPlan where
  declarations := wellFormed.table
  counterEdges := []
  swapsNumbers := false
  hasChapters := paper.hasChapters
  alphaRoots := [paper.topLevel.counter]

/-- The document of a paper is numbered by that plan. -/
theorem WellFormed.new_document (wellFormed : paper.WellFormed) {markers : List SectionMarker}
    (chapters : (markers.any fun marker => marker.level == .chapter) = paper.hasChapters) :
    NumberingPlan.new wellFormed.document markers Options.default = wellFormed.plan := by
  unfold NumberingPlan.new WellFormed.plan topLevel
  rw [chapters]
  rfl

/-- The values of the table are the declarations. -/
theorem WellFormed.values_table (wellFormed : paper.WellFormed) :
    wellFormed.table.values = paper.declarations := by
  simp [NameMap.values, WellFormed.table, Function.comp_def]

/-- The declaration in force for a kind is its own. -/
theorem WellFormed.declaration?_name (wellFormed : paper.WellFormed)
    (declared : kind ∈ paper.kinds) :
    wellFormed.plan.declaration? kind.name = some kind.declaration := by
  have distinct : (paper.declarations.reverse.map Declaration.name).Nodup := by
    rw [List.map_reverse, List.nodup_reverse, names_declarations]
    exact wellFormed.distinct
  have mem : kind.declaration ∈ paper.declarations.reverse :=
    List.mem_reverse.2 (List.mem_map_of_mem declared)
  have found := find?_of_nodup Declaration.name distinct mem
  rw [← wellFormed.values_table] at found
  exact found

/-- The caption of a kind is its own. -/
theorem WellFormed.caption_name (wellFormed : paper.WellFormed) (declared : kind ∈ paper.kinds) :
    wellFormed.plan.caption kind.name = kind.caption := by
  rw [NumberingPlan.caption, wellFormed.declaration?_name declared]
  rfl

/-- The counter of a kind is the one that its numbering says. -/
theorem WellFormed.counter?_name (wellFormed : paper.WellFormed) (declared : kind ∈ paper.kinds) :
    wellFormed.plan.counter? kind.name = kind.counter? := by
  rw [NumberingPlan.counter?, wellFormed.declaration?_name declared]
  unfold Kind.counter? Kind.declaration Declaration.counter Kind.shared?
  cases numbering : kind.numbering <;> rfl

/-- Counts are written as the paper says. -/
theorem WellFormed.writeWord_plan (wellFormed : paper.WellFormed) (appendix : Bool) :
    wellFormed.plan.writeWord appendix = paper.write appendix := by
  funext counter count
  simp only [NumberingPlan.writeWord, NumberingPlan.write, WellFormed.plan, write,
    List.contains_cons, List.contains_nil, Bool.or_false, Bool.and_eq_true, beq_iff_eq,
    UInt32.ofNat_toNat]

end Plan

section Edges

open CounterForest

variable {paper : Paper} {kind : Kind} {forest : CounterForest}

/-- The parents of levels are levels. -/
def LevelsClosed (forest : CounterForest) : Prop :=
  ∀ {level : SectionLevel} {parent : Text}, forest.HasParent level.counter parent →
    ∃ high : SectionLevel, parent = high.counter

/-- Registering a kind gives its counter the parent that its numbering says, without a warning. -/
theorem define_kind (closed : LevelsClosed forest)
    (other : ∀ level : SectionLevel, kind.name ≠ level.counter) :
    (forest.define kind.declaration).parents = (match kind.parent? with
      | some level => forest.parents.insert kind.name level.counter
      | none => forest.parents) ∧
    (forest.define kind.declaration).warnings = forest.warnings := by
  have ensured : (forest.ensure kind.name).parents = forest.parents := parents_ensure ..
  unfold define Kind.declaration Kind.parent? Kind.shared? Declaration.counter
  cases kind.numbering with
  | plain => simp
  | starred => simp
  | shared _ => simp
  | within level =>
    have levels : ∀ high ∈ (forest.ensure kind.name).ancestors level.counter,
        ∃ level : SectionLevel, high = level.counter := by
      apply forall_mem_ancestors
      · rintro child parent edge ⟨low, rfl⟩
        rw [HasParent, ensured] at edge
        exact closed edge
      · exact ⟨level, rfl⟩
    have notAbove : kind.name ∉ (forest.ensure kind.name).ancestors level.counter := by
      intro above
      obtain ⟨high, same⟩ := levels _ above
      exact other high same
    obtain ⟨taken, quiet⟩ := numberWithin_of_open (other level) notAbove
    rw [ensured] at taken
    exact ⟨taken, quiet.trans (warnings_ensure ..)⟩

/-- Registering kinds keeps the parents of levels. -/
theorem levelsClosed_define (closed : LevelsClosed forest)
    (other : ∀ level : SectionLevel, kind.name ≠ level.counter) :
    LevelsClosed (forest.define kind.declaration) := by
  intro level parent edge
  obtain ⟨parents, -⟩ := define_kind closed other
  rw [HasParent, parents] at edge
  cases isParent : kind.parent? with
  | none =>
    rw [isParent] at edge
    exact closed edge
  | some high =>
    rw [isParent] at edge
    change (forest.parents.insert kind.name high.counter).find? level.counter = some parent at edge
    rw [NameMap.find?_insert, if_neg (other level)] at edge
    exact closed edge

/-- Registering a kind without a parent so far gives it the parent that it says. -/
theorem find?_define_kind (closed : LevelsClosed forest)
    (other : ∀ level : SectionLevel, kind.name ≠ level.counter)
    (fresh : forest.parents.find? kind.name = none) (name : Text) :
    (forest.define kind.declaration).parents.find? name =
      if kind.name = name then kind.parent?.map SectionLevel.counter
      else forest.parents.find? name := by
  obtain ⟨parents, -⟩ := define_kind closed other
  rw [parents]
  cases kind.parent? with
  | none =>
    by_cases same : kind.name = name
    · rw [if_pos same, ← same, fresh]
      rfl
    · rw [if_neg same]
  | some level =>
    rw [NameMap.find?_insert]
    rfl

/-- Registering kinds of distinct names gives each its parent, and no other counter another one. -/
theorem foldl_define_kinds {kinds : List Kind} (distinct : (kinds.map Kind.name).Nodup)
    (other : ∀ kind ∈ kinds, ∀ level : SectionLevel, kind.name ≠ level.counter)
    (closed : LevelsClosed forest)
    (fresh : ∀ kind ∈ kinds, forest.parents.find? kind.name = none) :
    let registered := (kinds.map Kind.declaration).foldl CounterForest.define forest
    (∀ name, name ∉ kinds.map Kind.name →
      registered.parents.find? name = forest.parents.find? name) ∧
    (∀ kind ∈ kinds, registered.parents.find? kind.name =
      kind.parent?.map SectionLevel.counter) ∧
    registered.warnings = forest.warnings := by
  induction kinds generalizing forest with
  | nil => exact ⟨fun _ _ => rfl, fun _ mem => (nomatch mem), rfl⟩
  | cons kind more ih =>
    rw [List.map_cons, List.nodup_cons] at distinct
    rw [List.forall_mem_cons] at other fresh
    obtain ⟨-, quiet⟩ := define_kind closed other.1
    have find := find?_define_kind closed other.1 fresh.1
    have apart : ∀ later ∈ more, kind.name ≠ later.name := by
      intro later mem same
      refine distinct.1 ?_
      rw [same]
      exact List.mem_map_of_mem mem
    have freshLater : ∀ later ∈ more,
        (forest.define kind.declaration).parents.find? later.name = none := by
      intro later mem
      rw [find, if_neg (apart later mem), fresh.2 later mem]
    obtain ⟨kept, given, silent⟩ :=
      ih distinct.2 other.2 (levelsClosed_define closed other.1) freshLater
    refine ⟨?_, ?_, silent.trans quiet⟩
    · intro name absent
      rw [List.map_cons, List.mem_cons, not_or] at absent
      have different : kind.name ≠ name := fun same => absent.1 same.symm
      exact (kept name absent.2).trans (by rw [find, if_neg different])
    · intro own mem
      rcases List.mem_cons.1 mem with rfl | later
      · exact (kept own.name distinct.1).trans (by rw [find, if_pos rfl])
      · exact given own later

/-- The forest of a paper has the edges between levels and those that the kinds say, and no edge
was refused. -/
theorem WellFormed.parents_forest (wellFormed : paper.WellFormed) (appendix : Bool) :
    (∀ level : SectionLevel, (wellFormed.plan.forest appendix).parents.find? level.counter =
      (level.parent? paper.hasChapters).map SectionLevel.counter) ∧
    (∀ kind ∈ paper.kinds, (wellFormed.plan.forest appendix).parents.find? kind.name =
      kind.parent?.map SectionLevel.counter) ∧
    (wellFormed.plan.forest appendix).warnings = [] := by
  obtain ⟨levels, quiet⟩ := wellFormed.plan.parents_levels appendix
  have whole : wellFormed.plan.forest appendix =
      (paper.kinds.map Kind.declaration).foldl CounterForest.define
        (wellFormed.plan.levels appendix) := by
    unfold NumberingPlan.forest NumberingPlan.levels
    rw [show wellFormed.plan.declarations.values = paper.kinds.map Kind.declaration from
      wellFormed.values_table]
    rfl
  have closed : LevelsClosed (wellFormed.plan.levels appendix) := by
    intro level parent edge
    rw [HasParent, levels, NumberingPlan.find?_levelParents, Option.map_eq_some_iff] at edge
    obtain ⟨high, -, same⟩ := edge
    exact ⟨high, same.symm⟩
  have fresh : ∀ kind ∈ paper.kinds,
      (wellFormed.plan.levels appendix).parents.find? kind.name = none := by
    intro kind declared
    rw [levels]
    exact NumberingPlan.find?_levelParents_of_ne _ (wellFormed.name_ne_counter declared)
  obtain ⟨kept, given, silent⟩ := foldl_define_kinds wellFormed.distinct
    (fun kind declared => wellFormed.name_ne_counter declared) closed fresh
  rw [whole]
  refine ⟨?_, given, silent.trans quiet⟩
  intro level
  have absent : level.counter ∉ paper.kinds.map Kind.name := by
    intro mem
    obtain ⟨kind, declared, same⟩ := List.mem_map.1 mem
    exact wellFormed.name_ne_counter declared level same
  exact (kept _ absent).trans (by rw [levels]; exact NumberingPlan.find?_levelParents _ level)

/-- The lineage of a level. -/
theorem WellFormed.lineage_level (wellFormed : paper.WellFormed) (appendix : Bool)
    (level : SectionLevel) : (wellFormed.plan.forest appendix).Lineage
      ((paper.levelsDownTo level).map SectionLevel.counter) level.counter := by
  obtain ⟨parent, -, -⟩ := wellFormed.parents_forest appendix
  have chapterLine : (wellFormed.plan.forest appendix).Lineage [SectionLevel.chapter.counter]
      SectionLevel.chapter.counter := .root (parent .chapter)
  have sectionLine : (wellFormed.plan.forest appendix).Lineage
      ((paper.levelsDownTo .section).map SectionLevel.counter) SectionLevel.section.counter := by
    have edge := parent .section
    unfold levelsDownTo
    cases chapters : paper.hasChapters with
    | false =>
      rw [chapters] at edge
      exact .root edge
    | true =>
      rw [chapters] at edge
      exact chapterLine.child edge
  have subsectionLine : (wellFormed.plan.forest appendix).Lineage
      ((paper.levelsDownTo .subsection).map SectionLevel.counter)
      SectionLevel.subsection.counter := by
    have line := sectionLine.child (parent .subsection)
    simpa [levelsDownTo] using line
  cases level with
  | chapter => exact chapterLine
  | «section» => exact sectionLine
  | subsection => exact subsectionLine
  | subsubsection =>
    have line := subsectionLine.child (parent .subsubsection)
    simpa [levelsDownTo] using line

/-- The lineage of the counter of a kind that shares none. -/
theorem WellFormed.lineage_name (wellFormed : paper.WellFormed) (appendix : Bool)
    (declared : kind ∈ paper.kinds) :
    (wellFormed.plan.forest appendix).Lineage (paper.lineage kind.name) kind.name := by
  obtain ⟨-, parents, -⟩ := wellFormed.parents_forest appendix
  have parent := parents kind declared
  unfold lineage
  rw [wellFormed.kind?_name declared, Option.map_some]
  unfold Kind.parent? at parent
  cases numbering : kind.numbering with
  | within level =>
    rw [numbering] at parent
    exact (wellFormed.lineage_level appendix level).child parent
  | plain =>
    rw [numbering] at parent
    exact .root parent
  | starred =>
    rw [numbering] at parent
    exact .root parent
  | shared other =>
    rw [numbering] at parent
    exact .root parent

/-- The lineage of the counter that statements of a kind step. -/
theorem WellFormed.lineage_counter (wellFormed : paper.WellFormed) (appendix : Bool)
    (declared : kind ∈ paper.kinds) {counter : Text} (stepped : kind.counter? = some counter) :
    (wellFormed.plan.forest appendix).Lineage (paper.lineage counter) counter := by
  have own : ∀ {name}, some kind.name = some name →
      (wellFormed.plan.forest appendix).Lineage (paper.lineage name) name := by
    rintro name ⟨⟩
    exact wellFormed.lineage_name appendix declared
  unfold Kind.counter? at stepped
  cases numbering : kind.numbering with
  | plain =>
    rw [numbering] at stepped
    exact own stepped
  | starred =>
    rw [numbering] at stepped
    cases stepped
  | shared other =>
    rw [numbering] at stepped
    cases stepped
    obtain ⟨owner, isOwner, rfl⟩ := wellFormed.exists_owner declared numbering
    exact wellFormed.lineage_name appendix isOwner
  | within level =>
    rw [numbering] at stepped
    exact own stepped

end Edges

end Paper

namespace NumberingPlan

variable {forest : CounterForest}

/-- A command before all statements is stepped first. -/
theorem headings_command {marker : SectionMarker} {markers : List SectionMarker}
    {occurrences : List Occurrence} (before : ∀ found ∈ occurrences, marker.offset < found.offset) :
    headings forest (marker :: markers) occurrences =
      headings (forest.increment marker.level.counter) markers occurrences := by
  cases occurrences with
  | nil => rfl
  | cons occurrence more =>
    have first : marker.offset < occurrence.offset := before occurrence (List.mem_cons_self ..)
    rw [headings, headings, advance, if_pos first]

/-- A statement before all commands is numbered first. -/
theorem headings_statement {markers : List SectionMarker} {occurrence : Occurrence}
    {more : List Occurrence} (before : ∀ marker ∈ markers, occurrence.offset < marker.offset) :
    headings forest markers (occurrence :: more) =
      (forest.begin occurrence.environment).2 ::
        headings (forest.begin occurrence.environment).1 markers more := by
  have none : advance occurrence.offset forest markers = (forest, markers) := by
    cases markers with
    | nil => rfl
    | cons marker markers =>
      have first := before marker (List.mem_cons_self ..)
      rw [advance, if_neg (Nat.lt_asymm first)]
  rw [headings, none]

end NumberingPlan

namespace Paper

section Replay

open NumberingPlan (Replayed Event)

variable {paper : Paper} {appendix : Bool} {forest : CounterForest} {past : List Event}

/-- The title of a statement is the one that the paper gives it. -/
theorem WellFormed.begin_title (wellFormed : paper.WellFormed)
    (replayed : Replayed wellFormed.plan appendix past forest) {upTo : List Item}
    {occurrence : Occurrence} (declared : occurrence.environment ∈ paper.kinds.map Kind.name)
    (steps : wellFormed.plan.steps (past ++ [.statement occurrence]) =
      upTo.filterMap paper.step?) :
    (forest.begin occurrence.environment).2 = paper.title appendix upTo occurrence.environment := by
  obtain ⟨kind, isKind, name⟩ := List.mem_map.1 declared
  obtain ⟨-, title⟩ := replayed.begin occurrence
  rw [← name] at title ⊢
  rw [wellFormed.counter?_name isKind, wellFormed.caption_name isKind] at title
  unfold Paper.title
  rw [wellFormed.kind?_name isKind]
  cases stepped : kind.counter? with
  | none =>
    rw [stepped] at title
    simp only [stepped]
    exact title
  | some counter =>
    rw [stepped] at title
    obtain ⟨lineage, line, title⟩ := title
    have linked := wellFormed.plan.wellLinked_forest appendix
    have same : lineage = paper.lineage counter :=
      (line.eq_chain linked.acyclic).trans
        ((wellFormed.lineage_counter appendix isKind stepped).eq_chain linked.acyclic).symm
    simp only [stepped]
    rw [title, steps, same, wellFormed.writeWord_plan]
    rfl

/-- The sectioning command of an item at an offset, if it is one. -/
def marker? : Nat × Item → Option SectionMarker
  | (offset, .heading level starred _) => some ⟨level, offset, starred⟩
  | (_, .statement _ _ _) => none

/-- The offset and the environment of an item, if it is a statement. -/
def opening? : Nat × Item → Option (Nat × Text)
  | (offset, .statement kind _ _) => some (offset, kind)
  | (_, .heading _ _ _) => none

/-- The titles of the statements among items, given the items of the same part before them. -/
def titlesFrom (paper : Paper) (appendix : Bool) (past : List Item) : List Item → List Text
  | [] => []
  | .heading level starred title :: more =>
    paper.titlesFrom appendix (past ++ [.heading level starred title]) more
  | .statement kind label? body :: more =>
    let upTo := past ++ [.statement kind label? body]
    paper.title appendix upTo kind :: paper.titlesFrom appendix upTo more

/-- What holds of the offsets of items holds of the offsets of what is selected from them. -/
theorem forall_mem_select {α : Type} {select : Nat × Item → Option α} {offset : α → Nat}
    (located : ∀ place found, select place = some found → offset found = place.1)
    {placed : List (Nat × Item)} (property : Nat → Prop)
    (holds : ∀ place ∈ placed, property place.1) :
    ∀ found ∈ placed.filterMap select, property (offset found) := by
  intro found mem
  obtain ⟨place, isPlace, selected⟩ := List.mem_filterMap.1 mem
  rw [located place found selected]
  exact holds place isPlace

/-- The marker of an item is at its offset. -/
theorem marker?_offset (place : Nat × Item) (marker : SectionMarker)
    (isMarker : marker? place = some marker) : marker.offset = place.1 := by
  obtain ⟨offset, item⟩ := place
  cases item <;> cases isMarker
  rfl

/-- The opening of an item is at its offset. -/
theorem opening?_offset (place : Nat × Item) (opening : Nat × Text)
    (isOpening : opening? place = some opening) : opening.1 = place.1 := by
  obtain ⟨offset, item⟩ := place
  cases item <;> cases isOpening
  rfl

/-- A statement steps the counter that its plan and its paper say. -/
theorem WellFormed.counter?_statement (wellFormed : paper.WellFormed) {name : Text}
    (declared : name ∈ paper.kinds.map Kind.name) (label? : Option Text) (body : Text) :
    wellFormed.plan.counter? name = paper.step? (.statement name label? body) := by
  obtain ⟨kind, isKind, rfl⟩ := List.mem_map.1 declared
  rw [wellFormed.counter?_name isKind, step?, wellFormed.kind?_name isKind, Option.bind_some]

section Agreement

variable {upTo : List Item}

/-- Events that step what items step still do after a heading without a star. -/
theorem WellFormed.steps_heading (wellFormed : paper.WellFormed)
    (steps : wellFormed.plan.steps past = upTo.filterMap paper.step?) (level : SectionLevel)
    (offset : Nat) (title : Text) :
    wellFormed.plan.steps (past ++ [.command ⟨level, offset, false⟩]) =
      (upTo ++ [Item.heading level false title]).filterMap paper.step? := by
  rw [NumberingPlan.steps, List.filterMap_append, List.filterMap_append]
  exact congrArg (· ++ [level.counter]) steps

/-- Events that step what items step still do after a statement. -/
theorem WellFormed.steps_statement (wellFormed : paper.WellFormed)
    (steps : wellFormed.plan.steps past = upTo.filterMap paper.step?) {occurrence : Occurrence}
    (declared : occurrence.environment ∈ paper.kinds.map Kind.name) (label? : Option Text)
    (body : Text) :
    wellFormed.plan.steps (past ++ [.statement occurrence]) =
      (upTo ++ [Item.statement occurrence.environment label? body]).filterMap paper.step? := by
  have counter := wellFormed.counter?_statement declared label? body
  rw [NumberingPlan.steps, List.filterMap_append, List.filterMap_append]
  refine congr (congrArg _ steps) ?_
  rw [List.filterMap_cons, List.filterMap_cons, ← counter]
  rfl

end Agreement

/-- Numbering items in order gives their statements the titles that the paper says. -/
theorem WellFormed.headings_placed (wellFormed : paper.WellFormed) {placed : List (Nat × Item)}
    (ordered : placed.Pairwise fun left right => left.1 < right.1)
    (admitted : ∀ place ∈ placed, place.2.WellFormed (paper.kinds.map Kind.name))
    {occurrences : List Occurrence}
    (same : occurrences.map (fun found => (found.offset, found.environment)) =
      placed.filterMap opening?)
    (replayed : Replayed wellFormed.plan appendix past forest) {upTo : List Item}
    (steps : wellFormed.plan.steps past = upTo.filterMap paper.step?) :
    NumberingPlan.headings forest
        ((placed.filterMap marker?).filter fun marker => !marker.starred) occurrences =
      paper.titlesFrom appendix upTo (placed.map Prod.snd) := by
  induction placed generalizing occurrences past forest upTo with
  | nil =>
    have none : occurrences = [] := List.map_eq_nil_iff.1 same
    rw [none]
    rfl
  | cons place more ih =>
    rw [List.pairwise_cons] at ordered
    rw [List.forall_mem_cons] at admitted
    obtain ⟨behind, ordered⟩ := ordered
    obtain ⟨offset, item⟩ := place
    cases item with
    | heading level starred title =>
      cases starred with
      | true =>
        have unmoved : wellFormed.plan.steps past =
            (upTo ++ [Item.heading level true title]).filterMap paper.step? := by
          simp [steps, step?]
        exact ih ordered admitted.2 same replayed unmoved
      | false =>
        have before : ∀ found ∈ occurrences, offset < found.offset := by
          intro found mem
          have listed := List.mem_map_of_mem (f := fun found : Occurrence =>
            (found.offset, found.environment)) mem
          rw [same] at listed
          exact forall_mem_select opening?_offset (offset < ·) behind _ listed
        have moved := wellFormed.steps_heading steps level offset title
        have stepped := replayed.increment (.command ⟨level, offset, false⟩) rfl
        exact (NumberingPlan.headings_command before).trans
          (ih ordered admitted.2 same stepped moved)
    | statement kind label? body =>
      have before : ∀ marker ∈ (more.filterMap marker?).filter fun marker => !marker.starred,
          offset < marker.offset := by
        intro marker mem
        exact forall_mem_select marker?_offset (offset < ·) behind marker
          (List.mem_of_mem_filter mem)
      cases occurrences with
      | nil => cases same
      | cons occurrence occurrences =>
        obtain ⟨first, others⟩ := List.cons.inj same
        obtain ⟨rfl, rfl⟩ := Prod.mk.inj first
        have declared : occurrence.environment ∈ paper.kinds.map Kind.name := admitted.1.1
        have moved := wellFormed.steps_statement steps declared label? body
        have title := wellFormed.begin_title replayed declared moved
        have begun := (replayed.begin occurrence).1
        exact (NumberingPlan.headings_statement before).trans
          (congr (congrArg List.cons title) (ih ordered admitted.2 others begun moved))

/-- Numbering the items of a part gives their statements the titles that the paper says, and
refuses no counter edge. -/
theorem WellFormed.number_placed (wellFormed : paper.WellFormed) {placed : List (Nat × Item)}
    (ordered : placed.Pairwise fun left right => left.1 < right.1)
    (admitted : ∀ place ∈ placed, place.2.WellFormed (paper.kinds.map Kind.name))
    {occurrences : List Occurrence}
    (same : occurrences.map (fun found => (found.offset, found.environment)) =
      placed.filterMap opening?) (appendix : Bool) :
    wellFormed.plan.number occurrences (placed.filterMap marker?) appendix =
      (paper.titlesFrom appendix [] (placed.map Prod.snd), []) := by
  have start := wellFormed.plan.replayed_start appendix
  have none : wellFormed.plan.steps [] = [].filterMap paper.step? := rfl
  have titles := wellFormed.headings_placed ordered admitted same start none
  obtain ⟨-, -, quiet⟩ := wellFormed.parents_forest appendix
  exact Prod.ext titles quiet

end Replay

end Paper
end TexStatements
