import TexStatements.Proofs.Extraction.WarningKinds
import TexStatements.Proofs.Statement.Appendix
import TexStatements.Proofs.Statement.Nesting

/-!
# Agreement of headings and bodies

Headings belong to the occurrences found in a document, and bodies to the regions of canonical tags
found after its tags have been rewritten. In a text with properly nested tags both searches follow
one outline, so that they find as many statements, in the same order and on the same side of the
appendix.
-/
namespace TexStatements

/-- Placing occurrences in a part of the document leaves their number. -/
@[simp] theorem Occurrence.length_place (region : Region) (occurrences : List Occurrence) :
    (Occurrence.place region occurrences).length = occurrences.length := by
  simp [Occurrence.place]

/-- Placing occurrences in a part of the document changes nothing that does not depend on it. -/
theorem Occurrence.map_place {α : Type} {field : Occurrence → α}
    (unplaced : ∀ found region index,
      field { found with region := region, index := index } = field found)
    (region : Region) (occurrences : List Occurrence) :
    (Occurrence.place region occurrences).map field = occurrences.map field := by
  refine List.ext_getElem (by simp [place]) fun index _ _ => ?_
  simp [place, unplaced]

/-- What does not depend on the part is read off the sorted occurrences. -/
theorem map_all_locate {α : Type} {field : Occurrence → α}
    (unplaced : ∀ found region index,
      field { found with region := region, index := index } = field found)
    (text : Text) (environments : List Text) :
    (locate text environments).all.map field =
      ((environments.flatMap fun name =>
        (EnvironmentScan.ofName name text).occurrences name).mergeSort
          fun left right => left.offset ≤ right.offset).map field := by
  rw [Located.all, List.map_append]
  simp only [locate, List.flatMap_map]
  rw [Occurrence.map_place unplaced, Occurrence.map_place unplaced, ← List.map_append,
    List.takeWhile_append_dropWhile]

/-- The region of an occurrence. -/
def Occurrence.span (found : Occurrence) : EnvironmentRegion :=
  ⟨found.offset, found.stop, found.body⟩

/-- The occurrences are the regions of the environments that are searched for. -/
theorem exists_mem_locate_iff {text name : Text} {environments : List Text}
    {region : EnvironmentRegion} :
    (∃ found ∈ (locate text environments).all, found.environment = name ∧ found.span = region) ↔
      name ∈ environments ∧ region ∈ (EnvironmentScan.ofName name text).regions := by
  have found : (name, region) ∈ (locate text environments).all.map
      (fun found => (found.environment, found.span)) ↔
        name ∈ environments ∧ region ∈ (EnvironmentScan.ofName name text).regions := by
    rw [map_all_locate fun _ _ _ => rfl]
    simp only [List.mem_map, List.mem_mergeSort, List.mem_flatMap, EnvironmentScan.occurrences]
    constructor
    · rintro ⟨-, ⟨other, listed, span, isRegion, rfl⟩, same⟩
      cases same
      exact ⟨listed, isRegion⟩
    · rintro ⟨listed, isRegion⟩
      exact ⟨_, ⟨name, listed, region, isRegion, rfl⟩, rfl⟩
  rw [← found, List.mem_map]
  simp only [Prod.mk.injEq]

/-- Every occurrence is a region that the scan for its environment finds. -/
theorem mem_regions_of_mem_locate {text : Text} {environments : List Text} {found : Occurrence}
    (mem : found ∈ (locate text environments).all) :
    found.environment ∈ environments ∧
      found.span ∈ (EnvironmentScan.ofName found.environment text).regions :=
  exists_mem_locate_iff.1 ⟨found, mem, rfl, rfl⟩

namespace Outline

open Environment

/-- A property that a text hands down to every part of it holds between the tags of an outline if
it holds of its text. -/
theorem between_of_text {property : Text → Prop} {outline : Outline}
    (part : ∀ text piece, piece <:+: text → property text → property piece)
    (holds : property outline.text) : outline.Between property := by
  induction outline with
  | plain text => exact holds
  | environment front name inside after ihInside ihAfter =>
    refine ⟨part _ _ ⟨[], _, rfl⟩ holds, ihInside (part _ _ ?_ holds), ihAfter (part _ _ ?_ holds)⟩
    · exact ⟨front ++ End.opening.tag name, End.closing.tag name ++ after.text, by simp⟩
    · exact ⟨front ++ End.opening.tag name ++ inside.text ++ End.closing.tag name, [], by simp⟩

/-- The bodies of canonical regions are the canonical forms of those of the occurrences. -/
theorem map_body_regionsFrom {outline : Outline} {environments : List Text}
    (spellable : ∀ name ∈ environments, Spellable name)
    (between : outline.Between (Free environments))
    (listed : ∀ name ∈ outline.names, name ∈ environments) (start other : Nat) :
    (outline.regionsFrom start).map (·.body) =
      (outline.occurrencesFrom other).map fun found => canonicalize found.body environments := by
  induction outline generalizing start other with
  | plain text => rfl
  | environment front name inside after ihInside ihAfter =>
    simp only [names, List.mem_cons, List.mem_append, or_imp, forall_and, forall_eq] at listed
    simp only [regionsFrom, occurrencesFrom, List.map_cons, List.map_append]
    rw [ihInside between.2.1 listed.2.1, ihAfter between.2.2 listed.2.2,
      canonicalize_text spellable between.2.1 listed.2.1]

/-- The search of the text of an outline of the listed environments finds the environments of the
outline, divided at the appendix, and leaves none open. -/
theorem locate_text {outline : Outline} {environments : List Text} (distinct : environments.Nodup)
    (spellable : ∀ name ∈ environments, Spellable name)
    (between : outline.Between (Free environments))
    (listed : ∀ name ∈ outline.names, name ∈ environments) (unnested : outline.Unnested) :
    let isBefore (found : Occurrence) := isBeforeCut (appendixCut? outline.text) found.offset
    locate outline.text environments =
      { main := Occurrence.place .main ((outline.occurrencesFrom 0).takeWhile isBefore)
        appendix := Occurrence.place .appendix ((outline.occurrencesFrom 0).dropWhile isBefore)
        cut? := appendixCut? outline.text
        warnings := [] } := by
  obtain ⟨quiet, sorted⟩ := scans_text distinct spellable between listed unnested
  rw [← sorted]
  simp only [locate, List.flatMap_map]
  rw [quiet]

/-- In an outline of the listed environments, the search of the text finds as many statements as
the scan of the canonical form, with the same bodies up to their tags, and as many of them before
the appendix. -/
theorem locate_agrees {outline : Outline} {environments : List Text}
    (distinct : environments.Nodup) (spellable : ∀ name ∈ environments, Spellable name)
    (noAppendix : "appendix".toList ∉ environments)
    (between : outline.Between (Free environments))
    (betweenCanonical : outline.Between fun text =>
      ∀ part, ¬ End.tag part canonicalEnvironment <:+: text)
    (listed : ∀ name ∈ outline.names, name ∈ environments) (unnested : outline.Unnested) :
    let located := locate outline.text environments
    let canonical := canonicalize outline.text environments
    let regions := StatementRegion.ofText canonical
    located.warnings = [] ∧ regions.length = located.all.length ∧
      regions.map (·.body) = located.all.map (fun found => canonicalize found.body environments) ∧
      (regions.takeWhile fun region =>
        isBeforeCut (appendixCut? canonical) region.start).length = located.main.length := by
  have located := locate_text distinct spellable between listed unnested
  have rewritten := canonicalize_text spellable between listed
  have regions := ofText_canonical betweenCanonical
  have bodies := map_body_regionsFrom spellable between listed 0 0
  have all : (locate outline.text environments).all.map (·.body) =
      (outline.occurrencesFrom 0).map (·.body) := by
    have unplaced : ∀ (found : Occurrence) region index,
        { found with region := region, index := index }.body = found.body := fun _ _ _ => rfl
    rw [located, Located.all, List.map_append, Occurrence.map_place unplaced,
      Occurrence.map_place unplaced, ← List.map_append, List.takeWhile_append_dropWhile]
  -- Opening tags of the text and of its canonical form, before the appendix of each.
  obtain ⟨count, before⟩ := outline.exists_length_takeWhile_startsFrom
  have beforeText := before (fun _ name => name)
    (fun _ name occurs => spellable name (listed name occurs))
    (fun _ name occurs same => noAppendix (same ▸ listed name occurs))
  have beforeCanonical := before (fun _ _ => canonicalEnvironment)
    (fun _ _ _ => spellable_canonicalEnvironment) (fun _ _ _ => by decide)
  rw [← map_offset_occurrencesFrom, List.takeWhile_map, List.length_map] at beforeText
  rw [← map_start_regionsFrom, List.takeWhile_map, List.length_map] at beforeCanonical
  have bodiesAll : (outline.regionsFrom 0).map (·.body) =
      (locate outline.text environments).all.map fun found =>
        canonicalize found.body environments := by
    have mapped := congrArg (List.map fun body => canonicalize body environments) all
    rw [List.map_map, List.map_map] at mapped
    exact bodies.trans mapped.symm
  dsimp only
  rw [rewritten, regions]
  refine ⟨?_, ?_, bodiesAll, ?_⟩
  · rw [located]
  · simpa using congrArg List.length bodiesAll
  · rw [located, Occurrence.length_place]
    exact beforeCanonical.trans beforeText.symm

end Outline

namespace Extraction

/-- A document whose two searches agree in number is extracted without a warning that they do
not. -/
theorem ofDocument_countMismatch {document : Document} {options : Options}
    (quiet : Warning.OfKinds documentKinds document.warnings)
    (agrees :
      let environments := (EnvironmentChoice.ofDeclarations document.declarations options).names
      let located := locate document.text environments
      let canonical := canonicalize document.text environments
      let regions := StatementRegion.ofText canonical
      located.warnings = [] ∧ regions.length = located.all.length ∧
        (regions.takeWhile fun region =>
          isBeforeCut (appendixCut? canonical) region.start).length = located.main.length) :
    ∀ warning ∈ (ofDocument document options).warnings, warning.kind ≠ .countMismatch := by
  obtain ⟨closed, whole, main⟩ := agrees
  rw [Located.all, List.length_append] at whole
  intro warning mem
  simp only [ofDocument, closed, List.append_nil, List.length_take, List.length_drop,
    StatementBody.length_keepLastLabels, List.length_map, NumberingPlan.length_number, main,
    whole, List.mem_append, countWarnings, Nat.add_sub_cancel_left,
    Nat.min_eq_left (Nat.le_add_right _ _), if_true] at mem
  rcases mem with fromDocument | refused
  · have kind := quiet warning fromDocument
    rintro same
    rw [same] at kind
    exact absurd kind (by decide)
  · have kind := NumberingPlan.number_warnings _ _ _ _ warning refused
    rintro same
    rw [same] at kind
    exact absurd kind (by decide)

end Extraction

open Environment in
/-- Take a text without canonical tags and a list of distinct environments with readable names
other than the appendix. If the tags of these environments that occur in the text are properly
nested, the search for occurrences and the scan of the canonical form agree: no environment is left
open, there are as many regions as occurrences, the body of every region is the canonical form of
the body of its occurrence, and as many regions as occurrences come before the appendix. No
document with this text and these environments is extracted with a warning that the numbers of
headings and bodies differ. -/
theorem regions_agree_with_occurrences {text : Text} {environments : List Text}
    (distinct : environments.Nodup) (spellable : ∀ name ∈ environments, Spellable name)
    (noAppendix : "appendix".toList ∉ environments)
    (untouched : ∀ part, ¬ End.tag part canonicalEnvironment <:+: text)
    (nested : Nested [] (tagsIn environments text)) :
    let located := locate text environments
    let canonical := canonicalize text environments
    let regions := StatementRegion.ofText canonical
    located.warnings = [] ∧ regions.length = located.all.length ∧
      regions.map (·.body) = located.all.map (fun found => canonicalize found.body environments) ∧
      (regions.takeWhile fun region =>
        isBeforeCut (appendixCut? canonical) region.start).length = located.main.length ∧
      ∀ raw options, (Document.ofText raw).text = text →
        (EnvironmentChoice.ofDeclarations (Document.ofText raw).declarations options).names =
          environments →
        ∀ warning ∈ (extract raw options).warnings, warning.kind ≠ .countMismatch := by
  obtain ⟨outline, _, rfl, between, unnested, fresh, rfl⟩ :=
    Outline.exists_outline spellable nested
  rw [List.append_nil] at untouched ⊢
  have betweenCanonical : outline.Between fun text =>
      ∀ part, ¬ End.tag part canonicalEnvironment <:+: text :=
    Outline.between_of_text (fun text piece isPiece free part occurs =>
      free part (occurs.trans isPiece)) untouched
  obtain ⟨closed, whole, bodies, main⟩ := Outline.locate_agrees distinct spellable noAppendix
    between betweenCanonical (fun name occurs => (fresh name occurs).1) unnested
  refine ⟨closed, whole, bodies, main, ?_⟩
  intro raw options sameText sameEnvironments
  refine Extraction.ofDocument_countMismatch (Document.ofText_warnings raw) ?_
  rw [sameText, sameEnvironments]
  exact ⟨closed, whole, main⟩

/-- A lemma inside a theorem, and another one in the appendix. -/
def nestedStatements : Text :=
  ("\\begin\x7bthm\x7dA.\\begin\x7blem\x7dB.\\end\x7blem\x7d\\end\x7bthm\x7d" ++
    "\\appendix\\begin\x7blem\x7dC.\\end\x7blem\x7d").toList

/-- The two searches agree on a lemma inside a theorem and one in the appendix. -/
theorem regions_agree_with_occurrences_nested :
    Environment.Nested [] (Environment.tagsIn ["thm".toList, "lem".toList] nestedStatements) ∧
      (StatementRegion.ofText
        (canonicalize nestedStatements ["thm".toList, "lem".toList])).map (·.body) =
        (locate nestedStatements ["thm".toList, "lem".toList]).all.map fun found =>
          canonicalize found.body ["thm".toList, "lem".toList] := by
  have nested : Environment.Nested []
      (Environment.tagsIn ["thm".toList, "lem".toList] nestedStatements) := by
    decide +kernel
  have spellable : ∀ name ∈ ["thm".toList, "lem".toList], Environment.Spellable name := by
    decide
  have untouched : ∀ part,
      ¬ Environment.End.tag part canonicalEnvironment <:+: nestedStatements := by
    intro part
    cases part <;> decide +kernel
  have agree := regions_agree_with_occurrences (by decide) spellable (by decide) untouched nested
  exact ⟨nested, agree.2.2.1⟩

end TexStatements
