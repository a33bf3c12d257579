import Mathlib.Data.List.Dedup
import TexStatements.Proofs.Extraction.Parts
import TexStatements.Proofs.NameMap
import TexStatements.Proofs.Statement.Regions

/-!
# Labels of statements

Of several statements with one label the last keeps it. The labels that are kept are therefore
different, and they stay so when headings are paired with bodies and records are selected, since
this takes labels away and adds none.
-/
namespace TexStatements
namespace StatementBody

/-- The label of the statement at a position, if there is one. -/
def labelAt (bodies : List StatementBody) (index : Nat) : Option Text :=
  bodies[index]?.bind (·.label?)

/-- A statement keeps its label exactly when no later one has the same. -/
theorem labelAt_keepLastLabels {bodies : List StatementBody} {index : Nat} {label : Text} :
    labelAt (keepLastLabels bodies) index = some label ↔
      labelAt bodies index = some label ∧
        ∀ later ∈ bodies.drop (index + 1), later.label? ≠ some label := by
  induction bodies generalizing index with
  | nil => simp [labelAt, keepLastLabels]
  | cons body more ih =>
    cases index with
    | zero => simp [labelAt, keepLastLabels, Option.filter_eq_some_iff]
    | succ index => exact ih

/-- The labels that are kept are those of all statements, each where it stands last. -/
theorem labels_keepLastLabels (bodies : List StatementBody) :
    (keepLastLabels bodies).filterMap (·.label?) = (bodies.filterMap (·.label?)).dedup := by
  induction bodies with
  | nil => rfl
  | cons body more ih =>
    rw [keepLastLabels]
    cases labeled : body.label? with
    | none => simp [labeled, ih]
    | some label =>
      rw [List.filterMap_cons_some labeled]
      by_cases again : ∃ later ∈ more, later.label? = some label
      · have mem : label ∈ more.filterMap (·.label?) := List.mem_filterMap.2 again
        rw [List.dedup_cons_of_mem mem, ← ih, List.filterMap_cons_none]
        simpa using again
      · have absent : label ∉ more.filterMap (·.label?) := fun mem =>
          again (List.mem_filterMap.1 mem)
        rw [List.dedup_cons_of_notMem absent, ← ih, List.filterMap_cons_some]
        simpa using again

/-- The labels at the positions are those of the statements. -/
theorem exists_labelAt_iff {bodies : List StatementBody} {label : Text} :
    (∃ index, labelAt bodies index = some label) ↔ label ∈ bodies.filterMap (·.label?) := by
  rw [List.mem_filterMap]
  simp only [labelAt, Option.bind_eq_some_iff, List.mem_iff_getElem?]
  constructor
  · rintro ⟨index, body, here, labeled⟩
    exact ⟨body, ⟨index, here⟩, labeled⟩
  · rintro ⟨body, ⟨index, here⟩, labeled⟩
    exact ⟨index, body, here, labeled⟩

/-- A label that some statement has is kept at one position, and no other label is kept. -/
theorem existsUnique_labelAt_iff {bodies : List StatementBody} {label : Text} :
    (∃! index, labelAt (keepLastLabels bodies) index = some label) ↔
      label ∈ bodies.filterMap (·.label?) := by
  have somewhere : (∃ index, labelAt (keepLastLabels bodies) index = some label) ↔
      label ∈ bodies.filterMap (·.label?) := by
    rw [exists_labelAt_iff, labels_keepLastLabels, List.mem_dedup]
  refine ⟨fun kept => somewhere.1 kept.exists, fun mem => ?_⟩
  -- Of two positions with the label the first would not keep it.
  have never (first second : Nat) (before : first < second)
      (left : labelAt (keepLastLabels bodies) first = some label) :
      labelAt (keepLastLabels bodies) second ≠ some label := by
    intro right
    obtain ⟨later, isLater, labeled⟩ :=
      Option.bind_eq_some_iff.1 (labelAt_keepLastLabels.1 right).1
    refine (labelAt_keepLastLabels.1 left).2 later (List.mem_iff_getElem?.2 ?_) labeled
    refine ⟨second - (first + 1), ?_⟩
    rw [List.getElem?_drop, Nat.add_sub_cancel' before, isLater]
  obtain ⟨index, kept⟩ := somewhere.2 mem
  refine ⟨index, kept, fun other alsoKept => ?_⟩
  rcases Nat.lt_trichotomy other index with less | same | more
  · exact absurd kept (never other index less alsoKept)
  · exact same
  · exact absurd alsoKept (never index other more kept)

end StatementBody

namespace StatementRegion

/-- The regions behind a position are those that start later. -/
theorem mem_drop_iff {regions : List StatementRegion}
    (ordered : regions.Pairwise fun earlier later => earlier.start < later.start) {index : Nat}
    {region : StatementRegion} (here : regions[index]? = some region) (later : StatementRegion) :
    later ∈ regions.drop (index + 1) ↔ later ∈ regions ∧ region.start < later.start := by
  obtain ⟨inside, rfl⟩ := List.getElem?_eq_some_iff.1 here
  have whole := List.take_append_drop index regions
  rw [List.drop_eq_getElem_cons inside] at whole
  rw [← whole, List.pairwise_append, List.pairwise_cons] at ordered
  obtain ⟨-, ⟨behind, -⟩, before⟩ := ordered
  constructor
  · exact fun mem => ⟨List.mem_of_mem_drop mem, behind later mem⟩
  · rintro ⟨mem, starts⟩
    rw [← whole, List.mem_append, List.mem_cons] at mem
    rcases mem with earlier | rfl | isBehind
    · have := before later earlier _ (List.mem_cons_self ..)
      omega
    · omega
    · exact isBehind

end StatementRegion

namespace Options

/-- Selecting records keeps their labels different. -/
theorem nodup_labels_select (options : Options) {records : List Record}
    (distinct : (records.filterMap (·.label?)).Nodup) :
    ((options.select records).filterMap (·.label?)).Nodup := by
  have kept : ((records.filter fun record => options.keeps record.title).filterMap
      (·.label?)).Nodup :=
    distinct.sublist (List.filter_sublist.filterMap _)
  unfold select
  dsimp only
  split
  · generalize records.filter (fun record => options.keeps record.title) = records at kept
    have entered := NameMap.values_ofList_subperm
      (records.map fun record => (record.title, record))
    rw [List.map_map, Function.comp_def, List.map_id'] at entered
    obtain ⟨fewer, perm, sub⟩ := entered
    exact (perm.filterMap _).nodup_iff.1 (kept.sublist (sub.filterMap _))
  · exact kept

end Options

/-- The records of a document have different labels. -/
theorem Document.nodup_labels (document : Document) (options : Options) :
    ((document.recordsIn options .main ++ document.recordsIn options .appendix).filterMap
      (·.label?)).Nodup := by
  have paired := (labels_pairBodies_sublist (document.headingsIn options .main)
    (document.bodiesIn options .main) (document.occurrencesIn options .main)).append
    (labels_pairBodies_sublist (document.headingsIn options .appendix)
      (document.bodiesIn options .appendix) (document.occurrencesIn options .appendix))
  rw [← List.filterMap_append, ← List.filterMap_append, document.bodiesIn_append, bodies,
    StatementBody.labels_keepLastLabels] at paired
  exact (List.nodup_dedup _).sublist paired

/-- The last statement with a label keeps it: in every text a region has the label that comes first
in its own body unless a region that starts later has the same, so that each of these labels is
kept by one region. The labels of extracted records are different, however the records are
selected. -/
theorem last_statement_keeps_label :
    (∀ text : Text,
      let regions := StatementRegion.ofText text
      let bodies := regions.map fun region => StatementBody.ofRaw region.body
      let kept := StatementBody.keepLastLabels bodies
      (regions.Pairwise fun earlier later => earlier.start < later.start) ∧
        kept.length = regions.length ∧
        (∀ index label, StatementBody.labelAt kept index = some label ↔
          ∃ region, regions[index]? = some region ∧
            (StatementBody.ofRaw region.body).label? = some label ∧
            ∀ later ∈ regions, region.start < later.start →
              (StatementBody.ofRaw later.body).label? ≠ some label) ∧
        ∀ label, (∃! index, StatementBody.labelAt kept index = some label) ↔
          ∃ region ∈ regions, (StatementBody.ofRaw region.body).label? = some label) ∧
    ∀ raw options, ((extract raw options).records.filterMap (·.label?)).Nodup := by
  refine ⟨fun text => ?_, fun raw options => ?_⟩
  · intro regions bodies kept
    have ordered : regions.Pairwise fun earlier later => earlier.start < later.start :=
      StatementRegion.ofText_pairwise text
    refine ⟨ordered, by simp [kept, bodies], fun index label => ?_, fun label => ?_⟩
    · rw [StatementBody.labelAt_keepLastLabels]
      cases here : regions[index]? with
      | none => simp [StatementBody.labelAt, bodies, here]
      | some region =>
        simp only [StatementBody.labelAt, bodies, List.getElem?_map, here, Option.map_some,
          Option.bind_some, ← List.map_drop, List.forall_mem_map,
          StatementRegion.mem_drop_iff ordered here, Option.some.injEq, exists_eq_left', and_imp]
    · rw [StatementBody.existsUnique_labelAt_iff]
      simp [bodies]
  · rw [extract_records]
    exact options.nodup_labels_select ((Document.ofText raw).nodup_labels options)

end TexStatements
