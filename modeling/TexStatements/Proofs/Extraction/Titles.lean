import TexStatements.Proofs.Counter.Digits
import TexStatements.Proofs.Extraction.Records
import TexStatements.Proofs.Extraction.Selection

/-!
# Titles that tell statements apart

Of two statements with one counter and one caption the later has the greater number, so that in the
main part their titles are different. The appendix is numbered afresh, and in letters zero is
written as one is; these are the only reasons why two statements may have one title. Records are
collapsed by their titles alone, so statements that titles tell apart are all kept.
-/
namespace TexStatements
namespace NumberingPlan

variable {plan : NumberingPlan} {earlier later : Numbered} {counter : Text}

/-- Two statements that a number of their counter does not tell apart. Either one is in the main
part and the other in the appendix, where no counter of the chain is written in letters, and all
values are the same; or both are in the appendix, and the values are the same up to zeros and ones
that are written in letters. -/
def Confused (plan : NumberingPlan) (counter : Text) (earlier later : Numbered) : Prop :=
  (earlier.forest.inAppendix = false ∧ later.forest.inAppendix = true ∧
    ∀ name ∈ later.forest.chain counter, name ∉ plan.alphaRoots ∧
      earlier.forest.value name = later.forest.value name) ∨
  (earlier.forest.inAppendix = true ∧ later.forest.inAppendix = true ∧
    ∀ name ∈ later.forest.chain counter,
      earlier.forest.value name = later.forest.value name ∨
        name ∈ plan.alphaRoots ∧ earlier.forest.value name ≤ 1 ∧ later.forest.value name ≤ 1)

/-- If two statements step one counter and have one caption, they have one title exactly when their
number does not tell them apart. -/
def TellsApart (plan : NumberingPlan) (earlier later : Numbered) : Prop :=
  ∀ counter, plan.counter? earlier.occurrence.environment = some counter →
    plan.counter? later.occurrence.environment = some counter →
    plan.caption earlier.occurrence.environment = plan.caption later.occurrence.environment →
    (earlier.title = later.title ↔ plan.Confused counter earlier later)

/-- What the numbering of a part keeps of its plan. -/
theorem Numbered.After.flags {appendix : Bool} {past : List Event} {statement : Numbered}
    (after : statement.After plan appendix past) :
    statement.forest.inAppendix = appendix ∧ statement.forest.alphaRoots = plan.alphaRoots := by
  have same := after.replayed.flags
  simp only [CounterForest.flags, NumberingPlan.flags, Prod.mk.injEq] at same
  exact same.2

/-- All parts have the same chains. -/
theorem Numbered.After.chain {appendix other : Bool} {past before : List Event}
    (first : earlier.After plan appendix past) (second : later.After plan other before)
    (counter : Text) : earlier.forest.chain counter = later.forest.chain counter := by
  have start (appendix : Bool) : (plan.forest appendix).parents = (plan.forest false).parents := by
    rw [plan.forest_inPart appendix]
    rfl
  have parents : earlier.forest.parents = later.forest.parents := by
    rw [first.replayed.parents, second.replayed.parents, start appendix, start other]
  rw [CounterForest.chain, CounterForest.chain, CounterForest.ancestors_congr parents]

/-- Titles with one counter and one caption are the same exactly when all values in them are
written alike. -/
theorem Numbered.After.title_eq_iff {appendix other : Bool} {past before : List Event}
    (first : earlier.After plan appendix past) (second : later.After plan other before)
    (stepped : plan.counter? earlier.occurrence.environment = some counter)
    (steppedLater : plan.counter? later.occurrence.environment = some counter)
    (caption : plan.caption earlier.occurrence.environment =
      plan.caption later.occurrence.environment) :
    earlier.title = later.title ↔ ∀ name ∈ later.forest.chain counter,
      earlier.forest.component name = later.forest.component name := by
  rw [first.title, second.title, titleOf_eq_iff stepped steppedLater caption]
  exact CounterForest.formattedNumber_eq_iff (first.chain second counter)

/-- A value is written in letters in the appendix, if the plan says so for its counter. -/
theorem Numbered.After.writesLetters {appendix : Bool} {past : List Event} {statement : Numbered}
    (after : statement.After plan appendix past) (name : Text) :
    statement.forest.writesLetters name = (appendix && plan.alphaRoots.contains name) := by
  rw [CounterForest.writesLetters, after.flags.1, after.flags.2]

/-- A statement of the main part and one of the appendix have one title only where no value is
written in letters and all are the same. -/
theorem tellsApart_of_parts {past before : List Event} (first : earlier.After plan false past)
    (second : later.After plan true before) : plan.TellsApart earlier later := by
  intro counter stepped steppedLater caption
  have plain (name : Text) :
      false = plan.alphaRoots.contains name ↔ name ∉ plan.alphaRoots := by
    rw [eq_comm, List.contains_eq_mem, decide_eq_false_iff_not]
  rw [first.title_eq_iff second stepped steppedLater caption]
  simp only [Confused, first.flags.1, second.flags.1, CounterForest.component_eq_iff,
    first.writesLetters, second.writesLetters, Bool.false_and, Bool.true_and, plain,
    Bool.false_eq_true, false_and, or_false, true_and]

/-- Two statements of the appendix have one title only where their values are the same up to zeros
and ones that are written in letters, and two statements of the main part never have. -/
theorem Precedes.tellsApart {appendix : Bool} {events : Nat}
    (precedes : Precedes plan appendix events earlier later) (few : events < UInt32.size) :
    plan.TellsApart earlier later := by
  intro counter stepped steppedLater caption
  have increase := precedes.increase few steppedLater
  obtain ⟨past, between, first, second, -⟩ := precedes
  rw [first.title_eq_iff second stepped steppedLater caption]
  cases appendix with
  | true =>
    simp only [Confused, first.flags.1, second.flags.1, CounterForest.component_eq_iff,
      first.writesLetters, second.writesLetters, Bool.true_and, Bool.true_eq_false, false_and,
      false_or, true_and, List.contains_eq_mem, decide_eq_true_eq]
  | false =>
    obtain ⟨front, name, behind, whole, -, less⟩ := increase
    simp only [Confused, first.flags.1, second.flags.1, CounterForest.component_eq_iff,
      first.writesLetters, Bool.false_and, Bool.false_eq_true, false_and, or_false, and_false,
      iff_false]
    intro same
    have inChain : name ∈ later.forest.chain counter := by
      rw [← first.chain second counter, whole]
      simp
    rw [(same name inChain).2] at less
    exact absurd less (UInt32.lt_irrefl _)

end NumberingPlan

namespace Document

variable (document : Document) (options : Options)

/-- The statements of a document are told apart, within each part and from one to the other. -/
theorem tellsApart_numberedIn
    (few : ∀ part, (document.occurrencesIn options part).length +
      (document.markersIn options part).length < UInt32.size) :
    (document.numberedIn options .main ++ document.numberedIn options .appendix).Pairwise
      (document.plan options).TellsApart := by
  have course (part : Region) := (NumberingPlan.replayed_start (document.plan options)
    (decide (part = .appendix))).course (document.occurrencesIn options part)
      ((document.markersIn options part).filter fun marker => !marker.starred)
  have bound (part : Region) :
      ([] : List NumberingPlan.Event).length + (document.occurrencesIn options part).length +
        ((document.markersIn options part).filter fun marker => !marker.starred).length <
          UInt32.size := by
    have fewer := List.length_filter_le (fun marker : SectionMarker => !marker.starred)
      (document.markersIn options part)
    have enough := few part
    rw [List.length_nil]
    omega
  have inPart (part : Region) :
      (document.numberedIn options part).Pairwise (document.plan options).TellsApart :=
    (course part).2.imp fun precedes => precedes.tellsApart (bound part)
  refine List.pairwise_append.2 ⟨inPart .main, inPart .appendix, ?_⟩
  intro earlier isEarlier later isLater
  obtain ⟨past, first, -⟩ := (course .main).1 earlier isEarlier
  obtain ⟨before, second, -⟩ := (course .appendix).1 later isLater
  exact NumberingPlan.tellsApart_of_parts first second

end Document

/-- The default options keep all records. -/
theorem extract_default_records (raw : Text) :
    (extract raw Options.default).records =
      (Document.ofText raw).recordsIn Options.default .main ++
        (Document.ofText raw).recordsIn Options.default .appendix :=
  extract_all_records rfl rfl raw

/-- When titles are collapsed, it is the records of the default options that are. -/
theorem extract_collapsed_records (raw : Text) :
    (extract raw { Options.default with dedupeTitles := true }).records =
      Options.dedupe (extract raw Options.default).records := by
  rw [extract_default_records]
  refine congrArg Options.dedupe (List.filter_eq_self.2 ?_)
  exact fun _ _ => rfl

/-- With the default options, two statements that step one counter and have one caption have
different titles, unless their number does not tell them apart: because one is in the main part and
the other in the appendix, or because zero and one are both written as A there. Collapsing records
leaves one for every title. -/
theorem titles_tell_statements_apart (raw : Text)
    (few : ∀ part, ((Document.ofText raw).occurrencesIn Options.default part).length +
      ((Document.ofText raw).markersIn Options.default part).length < UInt32.size) :
    let document := Document.ofText raw
    let plan := document.plan Options.default
    let statements := document.numberedIn Options.default .main ++
      document.numberedIn Options.default .appendix
    let records := (extract raw Options.default).records
    let collapsed := (extract raw { Options.default with dedupeTitles := true }).records
    statements.map (·.occurrence) = (document.located Options.default).all ∧
      statements.map (·.title) = records.map (·.title) ∧
      statements.Pairwise plan.TellsApart ∧
      (collapsed.map (·.title)).Nodup ∧
      ∀ title, title ∈ collapsed.map (·.title) ↔ title ∈ records.map (·.title) := by
  intro document plan statements records collapsed
  have whole : records = document.recordsIn Options.default .main ++
      document.recordsIn Options.default .appendix :=
    extract_default_records raw
  have once : collapsed = Options.dedupe records := extract_collapsed_records raw
  refine ⟨?_, ?_, document.tellsApart_numberedIn Options.default few, ?_⟩
  · rw [List.map_append, Document.map_occurrence_numberedIn, Document.map_occurrence_numberedIn]
    rfl
  · rw [whole, List.map_append, List.map_append, Document.map_title_numberedIn,
      Document.map_title_numberedIn, Document.map_title_recordsIn, Document.map_title_recordsIn]
  · rw [once]
    exact Options.titles_dedupe_spec records

/-- A theorem in a section and another one in a section of the appendix. -/
def sectionedStatements : Text :=
  ("\\newtheorem\x7bthm\x7d\x7bTheorem\x7d[section]" ++
    "\\section\x7bS\x7d\\begin\x7bthm\x7dA.\\end\x7bthm\x7d" ++
    "\\appendix\\section\x7bT\x7d\\begin\x7bthm\x7dB.\\end\x7bthm\x7d").toList

/-- The letter of the section tells the second theorem from the first, and both are kept. -/
theorem titles_tell_sectioned_statements_apart :
    (∀ part, ((Document.ofText sectionedStatements).occurrencesIn Options.default part).length +
      ((Document.ofText sectionedStatements).markersIn Options.default part).length <
        UInt32.size) ∧
    ∀ title ∈ ["Theorem 1.1.".toList, "Theorem A.1.".toList],
      title ∈ (extract sectionedStatements
        { Options.default with dedupeTitles := true }).records.map (·.title) := by
  have located : (Document.ofText sectionedStatements).located Options.default = _ :=
    locate_of_pairwise (by decide +kernel)
  have few : ∀ part,
      ((Document.ofText sectionedStatements).occurrencesIn Options.default part).length +
        ((Document.ofText sectionedStatements).markersIn Options.default part).length <
          UInt32.size := by
    intro part
    cases part <;>
    · rw [Document.occurrencesIn, Document.markersIn, located]
      decide +kernel
  obtain ⟨-, titles, -, -, kept⟩ := titles_tell_statements_apart sectionedStatements few
  refine ⟨few, fun title mem => (kept title).2 ?_⟩
  rw [← titles, List.map_append, Document.map_title_numberedIn, Document.map_title_numberedIn,
    Document.headingsIn, Document.headingsIn, Document.occurrencesIn, Document.occurrencesIn,
    Document.markersIn, Document.markersIn, located]
  revert title
  decide +kernel

/-- A theorem before the appendix and one in it. -/
def statementsInParts : Text :=
  ("\\begin\x7btheorem\x7dA.\\end\x7btheorem\x7d" ++
    "\\appendix\\begin\x7btheorem\x7dB.\\end\x7btheorem\x7d").toList

/-- A theorem of the appendix before its first section and one in it. -/
def statementsAroundSection : Text :=
  ("\\newtheorem\x7bthm\x7d\x7bTheorem\x7d[section]" ++
    "\\appendix\\begin\x7bthm\x7dA.\\end\x7bthm\x7d" ++
    "\\section\x7bS\x7d\\begin\x7bthm\x7dB.\\end\x7bthm\x7d").toList

/-- The environments of the occurrences of a text, with the counters that they step. -/
def countersOf (raw : Text) : List (Text × Option Text) :=
  ((Document.ofText raw).located Options.default).all.map fun found =>
    (found.environment, ((Document.ofText raw).plan Options.default).counter? found.environment)

/-- The numbers start again in the appendix, and there zero is written as one is: in either text
both theorems, which step one counter and have one caption, have one title, and the first is lost
when records are collapsed. -/
theorem titles_do_not_tell_parts_apart :
    (countersOf statementsInParts = List.replicate 2 ("theorem".toList, some "theorem".toList) ∧
      (extract statementsInParts Options.default).records.map (·.title) =
        List.replicate 2 "Theorem 1.".toList ∧
      (extract statementsInParts { Options.default with dedupeTitles := true }).records.map
        (·.body) = ["B.".toList]) ∧
    (countersOf statementsAroundSection = List.replicate 2 ("thm".toList, some "thm".toList) ∧
      (extract statementsAroundSection Options.default).records.map (·.title) =
        List.replicate 2 "Theorem A.1.".toList ∧
      (extract statementsAroundSection { Options.default with dedupeTitles := true }).records.map
        (·.body) = ["B.".toList]) := by
  have inParts : (Document.ofText statementsInParts).located Options.default = _ :=
    locate_of_pairwise (by decide +kernel)
  have inPartsRegions : (Document.ofText statementsInParts).regions Options.default = _ :=
    mergeSort_eq_of_perm (List.Perm.refl _) (by decide +kernel)
  have around : (Document.ofText statementsAroundSection).located Options.default = _ :=
    locate_of_pairwise (by decide +kernel)
  have aroundRegions : (Document.ofText statementsAroundSection).regions Options.default = _ :=
    mergeSort_eq_of_perm (List.Perm.refl _) (by decide +kernel)
  rw [countersOf, countersOf, inParts, around]
  simp only [extract_collapsed_records, extract_default_records, Document.recordsIn,
    Document.headingsIn, Document.occurrencesIn, Document.markersIn, Document.bodiesIn,
    Document.bodies, Document.mainCount, inParts, inPartsRegions, around, aroundRegions]
  decide +kernel

end TexStatements
