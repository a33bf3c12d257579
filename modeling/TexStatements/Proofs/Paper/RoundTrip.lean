import TexStatements.Proofs.Extraction.Ends
import TexStatements.Proofs.Paper.Bodies
import TexStatements.Proofs.Paper.Headings

/-!
# The round trip of a paper

Extracting the source of a paper gives its records back: one for each statement, in order, with the
title that a reader of the printed paper would write down, its body and its label.
-/
namespace TexStatements
namespace Paper

open Environment (End)

section Parts

variable {paper : Paper}

/-- The items before the appendix, at their offsets. -/
def mainPlaced (paper : Paper) : List (Nat × Item) :=
  placedFrom paper.opening.byteLength (paper.main.map Entry.item)

/-- The items of the appendix, at their offsets. -/
def appendixPlaced (paper : Paper) : List (Nat × Item) :=
  placedFrom paper.front.byteLength paper.appendixEntries

/-- The items of a paper are those of its parts. -/
theorem placedFrom_entries (paper : Paper) :
    placedFrom paper.opening.byteLength paper.entries =
      paper.mainPlaced ++ paper.appendixPlaced := by
  rw [entries, placedFrom_append, ← Text.byteLength_append]
  rfl

/-- The items before the appendix. -/
theorem map_snd_mainPlaced (paper : Paper) : paper.mainPlaced.map Prod.snd = paper.main := by
  rw [mainPlaced, map_snd_placedFrom, List.filterMap_map]
  exact List.filterMap_some

/-- The items of the appendix. -/
theorem map_snd_appendixPlaced (paper : Paper) :
    paper.appendixPlaced.map Prod.snd = paper.appendixItems := by
  rw [appendixPlaced, map_snd_placedFrom, appendixEntries, appendixItems]
  cases paper.appendix? with
  | none => rfl
  | some items =>
    show (items.map Entry.item).filterMap Entry.item? = items
    rw [List.filterMap_map]
    exact List.filterMap_some

/-- The byte offset at which the appendix starts. -/
def cut? (paper : Paper) : Option Nat := paper.appendix?.map fun _ => paper.front.byteLength

/-- The items before the appendix are before its start. -/
theorem isBeforeCut_main (paper : Paper) :
    ∀ place ∈ paper.mainPlaced, isBeforeCut paper.cut? place.1 = true := by
  intro place mem
  have bounds := mem_placedFrom mem
  unfold cut?
  cases paper.appendix? with
  | none => rfl
  | some items =>
    rw [← Text.byteLength_append] at bounds
    exact decide_eq_true bounds.2

/-- The items of the appendix are not before its start. -/
theorem isBeforeCut_appendix (paper : Paper) :
    ∀ place ∈ paper.appendixPlaced, isBeforeCut paper.cut? place.1 = false := by
  intro place mem
  have bounds := mem_placedFrom mem
  unfold appendixPlaced appendixEntries at mem
  unfold cut?
  cases isAppendix : paper.appendix? with
  | none =>
    rw [isAppendix] at mem
    cases mem
  | some items => exact decide_eq_false (Nat.not_lt.2 bounds.1)

/-- What is selected from the items of a paper is divided at the start of the appendix into what is
selected from the two parts. -/
theorem select_parts {α : Type} {select : Nat × Item → Option α} {offset : α → Nat}
    (located : ∀ place found, select place = some found → offset found = place.1) :
    let before (found : α) := isBeforeCut paper.cut? (offset found)
    let whole := (paper.mainPlaced ++ paper.appendixPlaced).filterMap select
    whole.takeWhile before = paper.mainPlaced.filterMap select ∧
      whole.dropWhile before = paper.appendixPlaced.filterMap select ∧
      whole.filter before = paper.mainPlaced.filterMap select ∧
      whole.filter (fun found => !before found) = paper.appendixPlaced.filterMap select := by
  have main := forall_mem_select located (isBeforeCut paper.cut? · = true)
    paper.isBeforeCut_main
  have appendix := forall_mem_select located (isBeforeCut paper.cut? · = false)
    paper.isBeforeCut_appendix
  have stops : ∀ first ∈ (paper.appendixPlaced.filterMap select).head?,
      isBeforeCut paper.cut? (offset first) = false :=
    fun first isFirst => appendix first (List.mem_of_mem_head? isFirst)
  intro before whole
  refine ⟨?_, ?_, ?_, ?_⟩
  · rw [show whole = _ from List.filterMap_append]
    exact takeWhile_run main stops
  · rw [show whole = _ from List.filterMap_append]
    exact dropWhile_run main stops
  · rw [show whole = _ from List.filterMap_append, List.filter_append,
      List.filter_eq_self.2 main, List.filter_eq_nil_iff.2, List.append_nil]
    intro found mem
    simp [before, appendix found mem]
  · rw [show whole = _ from List.filterMap_append, List.filter_append,
      List.filter_eq_nil_iff.2, List.nil_append, List.filter_eq_self.2]
    · intro found mem
      simp [before, appendix found mem]
    · intro found mem
      simp [before, main found mem]

end Parts

section Located

variable {paper : Paper}

/-- The occurrence of an item is at its offset. -/
theorem occurrence?_offset (place : Nat × Item) (found : Occurrence)
    (isStatement : occurrence? place = some found) : found.offset = place.1 := by
  obtain ⟨offset, item⟩ := place
  cases item <;> cases isStatement
  rfl

/-- The outline of the source of a paper. -/
def outline (paper : Paper) : Outline := outlineFrom paper.opening paper.entries

/-- The environments of an outline of admitted lines are named by kinds, and none contains
another. -/
theorem names_outlineFrom {names : List Text} (front : Text) {entries : List Entry}
    (admitted : ∀ entry ∈ entries, entry.WellFormed names) :
    (∀ name ∈ (outlineFrom front entries).names, name ∈ names) ∧
      (outlineFrom front entries).Unnested := by
  induction entries generalizing front with
  | nil => exact ⟨fun _ mem => (nomatch mem), trivial⟩
  | cons entry more ih =>
    rw [List.forall_mem_cons] at admitted
    cases entry with
    | appendix => exact ih _ admitted.2
    | item content =>
      cases content with
      | heading level starred title => exact ih _ admitted.2
      | statement kind label? body =>
        obtain ⟨known, unnested⟩ := ih ['\n'] admitted.2
        refine ⟨?_, ?_, trivial, unnested⟩
        · intro name mem
          rcases List.mem_cons.1 mem with rfl | later
          · exact admitted.1.1
          · exact known name later
        · exact fun mem => nomatch mem

/-- The source of an admitted paper has an outline. -/
theorem WellFormed.outline (wellFormed : paper.WellFormed) :
    paper.outline.text = paper.render ∧ paper.outline.Between (TagFree paper) := by
  have kinds : TagFree paper paper.kindRow := by
    apply tagFree_row
    · intro command mem
      obtain ⟨kind, declared, rfl⟩ := List.mem_map.1 mem
      exact (wellFormed.simple_kind declared).proper
    · intro command mem part
      obtain ⟨kind, -, rfl⟩ := List.mem_map.1 mem
      show "newtheorem".toList ≠ part.word
      cases part <;> decide
  have opening : TagFree paper paper.opening :=
    kinds.append (wellFormed.tagFree_documentEnd .opening) (Text.atCommand_backslash _)
  constructor
  · rw [Paper.outline, text_outlineFrom, render_eq_lines]
  · exact wellFormed.between_outlineFrom opening wellFormed.entries

/-- The names in the tags of a paper are readable. -/
theorem WellFormed.spellable (wellFormed : paper.WellFormed) :
    ∀ name ∈ paper.kinds.map Kind.name, Environment.Spellable name :=
  fun name declared => spellable_of_isWord (wellFormed.isWord name declared)

/-- Between the tags of the outline there is no tag of a kind and no canonical one. -/
theorem WellFormed.between_outline (wellFormed : paper.WellFormed) :
    paper.outline.Between (Outline.Free (paper.kinds.map Kind.name)) ∧
      paper.outline.Between fun text => ∀ part, ¬ End.tag part canonicalEnvironment <:+: text := by
  obtain ⟨-, free⟩ := wellFormed.outline
  constructor
  · refine free.mono fun text free part name declared => ?_
    exact not_infix_of_silentOver (free part name (List.mem_cons_of_mem _ declared) []
      Text.atCommand_nil)
  · refine free.mono fun text free part => ?_
    exact not_infix_of_silentOver (free part _ (List.mem_cons_self ..) [] Text.atCommand_nil)

/-- The statements of a paper are located at their lines, and divided at the appendix. -/
theorem WellFormed.locate_render (wellFormed : paper.WellFormed) :
    locate paper.render (paper.kinds.map Kind.name) =
      { main := Occurrence.place .main (paper.mainPlaced.filterMap occurrence?)
        appendix := Occurrence.place .appendix (paper.appendixPlaced.filterMap occurrence?)
        cut? := paper.cut?
        warnings := [] } := by
  obtain ⟨whole, -⟩ := wellFormed.outline
  obtain ⟨known, unnested⟩ :
      (∀ name ∈ paper.outline.names, name ∈ paper.kinds.map Kind.name) ∧ paper.outline.Unnested :=
    names_outlineFrom paper.opening wellFormed.entries
  have located := Outline.locate_text wellFormed.distinct wellFormed.spellable
    wellFormed.between_outline.1 known unnested
  have found : paper.outline.occurrencesFrom 0 =
      (paper.mainPlaced ++ paper.appendixPlaced).filterMap occurrence? := by
    rw [Paper.outline, occurrencesFrom_outlineFrom, Nat.zero_add, placedFrom_entries]
  have cut : appendixCut? paper.render = paper.cut? := wellFormed.appendixCut?_render
  obtain ⟨main, appendix, -, -⟩ := paper.select_parts occurrence?_offset
  simp only [whole, found, cut] at located
  rw [located, main, appendix]

/-- The bodies of the regions of admitted lines are the texts between the tags of the statements. -/
theorem map_body_regionsFrom_outlineFrom (front : Text) (start : Nat) (entries : List Entry) :
    ((outlineFrom front entries).regionsFrom start).map (·.body) =
      raws (entries.filterMap Entry.item?) := by
  induction entries generalizing front start with
  | nil => rfl
  | cons entry more ih =>
    cases entry with
    | appendix => exact ih _ _
    | item content =>
      cases content with
      | heading level starred title => exact ih _ _
      | statement kind label? body => exact congrArg (inside label? body :: ·) (ih _ _)

/-- The items of the lines of a paper. -/
theorem filterMap_item?_entries (paper : Paper) :
    paper.entries.filterMap Entry.item? = paper.main ++ paper.appendixItems := by
  rw [← map_snd_placedFrom paper.opening.byteLength, placedFrom_entries, List.map_append,
    map_snd_mainPlaced, map_snd_appendixPlaced]

/-- The statements among items that are located have the bodies of the items. -/
theorem map_body_occurrence? (placed : List (Nat × Item)) :
    (placed.filterMap occurrence?).map (·.body) = raws (placed.map Prod.snd) := by
  induction placed with
  | nil => rfl
  | cons place more ih =>
    obtain ⟨offset, item⟩ := place
    cases item with
    | heading level starred title => exact ih
    | statement kind label? body => exact congrArg (inside label? body :: ·) ih

/-- The statements among items that are located open where the items do. -/
theorem map_opening_occurrence? (placed : List (Nat × Item)) :
    (placed.filterMap occurrence?).map (fun found => (found.offset, found.environment)) =
      placed.filterMap opening? := by
  induction placed with
  | nil => rfl
  | cons place more ih =>
    obtain ⟨offset, item⟩ := place
    cases item with
    | heading level starred title => exact ih
    | statement kind label? body => exact congrArg ((offset, kind) :: ·) ih

/-- The regions of canonical tags have the texts between the tags of the statements as bodies, and
those of the main part come before the appendix. -/
theorem WellFormed.regions_render (wellFormed : paper.WellFormed) :
    let canonical := canonicalize paper.render (paper.kinds.map Kind.name)
    let regions := StatementRegion.ofText canonical
    regions.map (·.body) = raws paper.main ++ raws paper.appendixItems ∧
      (regions.takeWhile fun region =>
        isBeforeCut (appendixCut? canonical) region.start).length = (raws paper.main).length := by
  obtain ⟨whole, -⟩ := wellFormed.outline
  obtain ⟨known, unnested⟩ :
      (∀ name ∈ paper.outline.names, name ∈ paper.kinds.map Kind.name) ∧ paper.outline.Unnested :=
    names_outlineFrom paper.opening wellFormed.entries
  obtain ⟨between, betweenCanonical⟩ := wellFormed.between_outline
  have noAppendix : "appendix".toList ∉ paper.kinds.map Kind.name := by
    intro mem
    obtain ⟨-, -, different⟩ := wellFormed.environment _ (List.mem_cons_of_mem _ mem)
    exact different rfl
  obtain ⟨-, -, -, before⟩ := Outline.locate_agrees wellFormed.distinct wellFormed.spellable
    noAppendix between betweenCanonical known unnested
  have rewritten := Outline.canonicalize_text wellFormed.spellable between known
  have regions := Outline.ofText_canonical betweenCanonical
  have bodies := congrArg List.length (map_body_occurrence? paper.mainPlaced)
  rw [List.length_map, map_snd_mainPlaced] at bodies
  rw [whole] at before rewritten
  rw [wellFormed.locate_render, Occurrence.length_place, bodies] at before
  refine ⟨?_, before⟩
  rw [rewritten, regions, Paper.outline, map_body_regionsFrom_outlineFrom,
    filterMap_item?_entries]
  exact List.filterMap_append

end Located

section Records

variable {paper : Paper}

/-- A record of a title and a body. -/
def record (title : Text) (body : StatementBody) : Record := ⟨title, body.text, body.label?⟩

/-- As many headings as bodies are paired one by one. -/
theorem pairBodies_eq_zipWith {headings : List Text} {bodies : List StatementBody}
    (occurrences : List Occurrence) (same : headings.length = bodies.length) :
    pairBodies headings bodies occurrences = List.zipWith record headings bodies := by
  apply List.ext_getElem
  · simp [pairBodies, same]
  · intro index inHeadings inBoth
    have inBodies : index < bodies.length := by
      rw [List.length_zipWith, same, Nat.min_self] at inBoth
      exact inBoth
    simp [pairBodies, List.getElem?_eq_getElem inBodies, record]

/-- There is one title for each statement. -/
theorem length_titlesFrom (paper : Paper) (appendix : Bool) (past items : List Item) :
    (paper.titlesFrom appendix past items).length = (raws items).length := by
  induction items generalizing past with
  | nil => rfl
  | cons item more ih =>
    cases item with
    | heading level starred title => exact ih _
    | statement kind label? body => exact congrArg Nat.succ (ih _)

/-- There is one kept body for each statement. -/
theorem length_keptBodies (behind items : List Item) :
    (keptBodies behind items).length = (raws items).length := by
  induction items with
  | nil => rfl
  | cons item more ih =>
    cases item with
    | heading level starred title => exact ih
    | statement kind label? body => exact congrArg Nat.succ ih

/-- The records of a part are made of its titles and its bodies. -/
theorem recordsFrom_eq_zipWith (paper : Paper) (appendix : Bool) (behind past items : List Item) :
    paper.recordsFrom appendix behind past items =
      List.zipWith record (paper.titlesFrom appendix past items) (keptBodies behind items) := by
  induction items generalizing past with
  | nil => rfl
  | cons item more ih =>
    cases item with
    | heading level starred title => exact ih _
    | statement kind label? body => exact congrArg (List.cons _) (ih _)

/-- The environments that are looked for are those of the kinds. -/
theorem WellFormed.names_choice (wellFormed : paper.WellFormed) (options : Options) :
    (EnvironmentChoice.ofDeclarations wellFormed.table options).names =
      paper.kinds.map Kind.name := by
  have keys : wellFormed.table.keys = paper.kinds.map Kind.name := by
    rw [← names_declarations]
    simp [NameMap.keys, WellFormed.table, Function.comp_def]
  have nonempty : wellFormed.table.entries.isEmpty = false := by
    cases kinds : paper.kinds with
    | nil => exact absurd kinds wellFormed.declares
    | cons kind more => simp [WellFormed.table, declarations, kinds]
  rw [EnvironmentChoice.ofDeclarations, nonempty]
  exact keys

/-- The paper has chapters if a chapter is found in its source. -/
theorem any_chapter (placed : List (Nat × Item)) :
    ((placed.filterMap marker?).any fun marker => marker.level == .chapter) =
      (placed.map Prod.snd).any Item.isChapter := by
  induction placed with
  | nil => rfl
  | cons place more ih =>
    obtain ⟨offset, item⟩ := place
    cases item with
    | heading level starred title =>
      exact congrArg ((level == .chapter) || ·) ih
    | statement kind label? body => exact ih

/-- The titles of the two parts, and no warning. -/
theorem WellFormed.number_parts (wellFormed : paper.WellFormed) :
    wellFormed.plan.number (Occurrence.place .main (paper.mainPlaced.filterMap occurrence?))
        (paper.mainPlaced.filterMap marker?) false =
      (paper.titlesFrom false [] paper.main, []) ∧
    wellFormed.plan.number
        (Occurrence.place .appendix (paper.appendixPlaced.filterMap occurrence?))
        (paper.appendixPlaced.filterMap marker?) true =
      (paper.titlesFrom true [] paper.appendixItems, []) := by
  have unplaced : ∀ (found : Occurrence) (region : Region) (index : Nat),
      (fun found : Occurrence => (found.offset, found.environment))
        { found with region := region, index := index } = (found.offset, found.environment) :=
    fun _ _ _ => rfl
  have admitted : ∀ place ∈ paper.mainPlaced ++ paper.appendixPlaced,
      place.2.WellFormed (paper.kinds.map Kind.name) := by
    intro place mem
    have item := List.mem_map_of_mem (f := Prod.snd) mem
    rw [List.map_append, map_snd_mainPlaced, map_snd_appendixPlaced] at item
    exact wellFormed.items _ item
  have mainOrder : paper.mainPlaced.Pairwise fun left right => left.1 < right.1 :=
    pairwise_placedFrom _ _
  have appendixOrder : paper.appendixPlaced.Pairwise fun left right => left.1 < right.1 :=
    pairwise_placedFrom _ _
  constructor
  · have titles := wellFormed.number_placed mainOrder
      (fun place mem => admitted place (List.mem_append_left _ mem))
      ((Occurrence.map_place unplaced .main _).trans (map_opening_occurrence? paper.mainPlaced))
      false
    rw [map_snd_mainPlaced] at titles
    exact titles
  · have titles := wellFormed.number_placed appendixOrder
      (fun place mem => admitted place (List.mem_append_right _ mem))
      ((Occurrence.map_place unplaced .appendix _).trans
        (map_opening_occurrence? paper.appendixPlaced)) true
    rw [map_snd_appendixPlaced] at titles
    exact titles

/-- The bodies of the regions, with the labels that they keep. -/
theorem WellFormed.keepLastLabels_regions (wellFormed : paper.WellFormed)
    {regions : List StatementRegion}
    (bodies : regions.map (·.body) = raws paper.main ++ raws paper.appendixItems) :
    StatementBody.keepLastLabels (regions.map fun region => StatementBody.ofRaw region.body) =
      keptBodies paper.appendixItems paper.main ++ keptBodies [] paper.appendixItems := by
  have read : (regions.map fun region => StatementBody.ofRaw region.body) =
      (regions.map (·.body)).map StatementBody.ofRaw := by
    rw [List.map_map]
    rfl
  have main : ∀ item ∈ paper.main, item.WellFormed (paper.kinds.map Kind.name) :=
    fun item mem => wellFormed.items item (List.mem_append_left _ mem)
  have appendix : ∀ item ∈ paper.appendixItems, item.WellFormed (paper.kinds.map Kind.name) :=
    fun item mem => wellFormed.items item (List.mem_append_right _ mem)
  rw [read, bodies, List.map_append, map_ofRaw_raws main, map_ofRaw_raws appendix,
    keepLastLabels_parts]

/-- The normalized source of a paper is extracted to its records, without a warning. -/
theorem WellFormed.ofDocument_document (wellFormed : paper.WellFormed) :
    Extraction.ofDocument wellFormed.document Options.default = ⟨paper.records, []⟩ := by
  have located := wellFormed.locate_render
  have markers : SectionMarker.ofText paper.render =
      (paper.mainPlaced ++ paper.appendixPlaced).filterMap marker? := by
    rw [wellFormed.markers_render, placedFrom_entries]
  obtain ⟨-, -, mainMarkers, appendixMarkers⟩ := paper.select_parts marker?_offset
  have plan : NumberingPlan.new wellFormed.document
      ((paper.mainPlaced ++ paper.appendixPlaced).filterMap marker?) Options.default =
        wellFormed.plan := by
    apply wellFormed.new_document
    rw [any_chapter, List.map_append, map_snd_mainPlaced, map_snd_appendixPlaced, hasChapters]
  obtain ⟨mainTitles, appendixTitles⟩ := wellFormed.number_parts
  obtain ⟨bodies, count⟩ := wellFormed.regions_render
  have kept := wellFormed.keepLastLabels_regions bodies
  have mainLength := length_keptBodies paper.appendixItems paper.main
  have text : wellFormed.document.text = paper.render := rfl
  have table : wellFormed.document.declarations = wellFormed.table := rfl
  have quiet : wellFormed.document.warnings = [] := rfl
  simp only [Extraction.ofDocument, text, table, quiet, wellFormed.names_choice, located, markers,
    plan, mainMarkers, appendixMarkers, mainTitles, appendixTitles, count, kept,
    List.take_left' mainLength, List.drop_left' mainLength]
  have mainSame : (paper.titlesFrom false [] paper.main).length =
      (keptBodies paper.appendixItems paper.main).length := by
    rw [length_titlesFrom, length_keptBodies]
  have appendixSame : (paper.titlesFrom true [] paper.appendixItems).length =
      (keptBodies [] paper.appendixItems).length := by
    rw [length_titlesFrom, length_keptBodies]
  rw [pairBodies_eq_zipWith _ mainSame, pairBodies_eq_zipWith _ appendixSame,
    ← recordsFrom_eq_zipWith, ← recordsFrom_eq_zipWith, countWarnings, if_pos mainSame.symm,
    countWarnings, if_pos appendixSame.symm]
  rfl

/-- Unless something else is asked for, all records are kept. -/
theorem select_default (records : List Record) : Options.default.select records = records :=
  List.filter_eq_self.2 fun _ _ => rfl

/-- There is one record for each statement of a part. -/
theorem length_recordsFrom (paper : Paper) (appendix : Bool) (behind past items : List Item) :
    (paper.recordsFrom appendix behind past items).length = items.countP Item.isStatement := by
  induction items generalizing past with
  | nil => rfl
  | cons item more ih =>
    cases item with
    | heading level starred title =>
      exact (ih _).trans (List.countP_cons_of_neg Bool.false_ne_true).symm
    | statement kind label? body =>
      exact (congrArg Nat.succ (ih _)).trans (List.countP_cons_of_pos rfl).symm

end Records

/-- Extracting the source of an admitted paper has a result: no warning and the records of the
paper, one for each statement: those before the appendix first, in order, each with the caption of
its kind and the number that the items up to it determine, with its body, and with its label unless
a later statement has the same one. -/
theorem extract_render {paper : Paper} (wellFormed : paper.WellFormed) :
    let extraction := extract paper.render Options.default
    extract? paper.render Options.default = some extraction ∧
      extraction.warnings = [] ∧ extraction.records = paper.records ∧
      extraction.records.length = (paper.main ++ paper.appendixItems).countP Item.isStatement := by
  have normal := wellFormed.ofText_render
  have extracted := wellFormed.ofDocument_document
  have length : paper.records.length =
      (paper.main ++ paper.appendixItems).countP Item.isStatement := by
    rw [records, List.length_append, length_recordsFrom, length_recordsFrom, List.countP_append]
  refine ⟨extract?_of_ends wellFormed.ends_render _, ?_⟩
  simp only [extract, normal, extracted, select_default]
  exact ⟨trivial, trivial, length⟩

/-- A paper whose lemmas share the counter of its theorems, with an appendix that uses a label of
the main part again. -/
def sharedLabels : Paper where
  kinds :=
    [⟨"thm".toList, "Theorem".toList, .within .section⟩,
      ⟨"lem".toList, "Lemma".toList, .shared "thm".toList⟩,
      ⟨"rem".toList, "Remark".toList, .starred⟩]
  main :=
    [.heading .section false "Facts".toList,
      .statement "lem".toList (some "first".toList) "A first fact".toList,
      .statement "thm".toList (some "second".toList) "A second fact".toList,
      .heading .section true "Remarks".toList,
      .statement "rem".toList none "No number".toList]
  appendix? := some
    [.heading .section false "More".toList,
      .statement "thm".toList (some "first".toList) "A last fact".toList]

/-- In the appendix theorems are numbered by letters of sections, and the last statement of a label
keeps it. -/
theorem extract_render_sharedLabels :
    sharedLabels.WellFormed ∧
      (extract sharedLabels.render Options.default).records =
        [⟨"Lemma 1.1.".toList, "A first fact".toList, none⟩,
          ⟨"Theorem 1.2.".toList, "A second fact".toList, some "second".toList⟩,
          ⟨"Remark".toList, "No number".toList, none⟩,
          ⟨"Theorem A.1.".toList, "A last fact".toList, some "first".toList⟩] := by
  have wellFormed : sharedLabels.WellFormed := by decide +kernel
  have records := (extract_render wellFormed).2.2.1
  exact ⟨wellFormed, records.trans (by decide +kernel)⟩

end Paper
end TexStatements
