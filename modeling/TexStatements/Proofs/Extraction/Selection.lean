import TexStatements.Extraction
import TexStatements.Proofs.NameMap

/-!
# Selected records

Records are selected by the kinds of their titles and collapsed by the titles themselves. Both look
at titles only, so that it does not matter which of the two is done first, and selecting again
changes nothing. A collapsed list stands for the records that it was made from
(`Options.Collapses`): each title is in the place of its first record, with its last one.
-/
namespace TexStatements
namespace Options

/-- Records with different titles that stand for a list of records. -/
structure Collapses (records collapsed : List Record) : Prop where
  /-- No title is there twice. -/
  distinct : (collapsed.map (·.title)).Nodup
  /-- The titles are those of the list. -/
  titles : ∀ title, title ∈ collapsed.map (·.title) ↔ title ∈ records.map (·.title)
  /-- They are in the order in which each occurs first in the list. -/
  ordered : (collapsed.map (·.title)).Pairwise fun earlier later =>
    (records.map (·.title)).idxOf earlier < (records.map (·.title)).idxOf later
  /-- Each comes with its last record of the list. -/
  last : ∀ record ∈ collapsed, ∃ before behind, records = before ++ record :: behind ∧
    ∀ other ∈ behind, other.title ≠ record.title

/-- Records as entries under their titles. -/
def titled (records : List Record) : List (Text × Record) :=
  records.map fun record => (record.title, record)

/-- The names of the entries are the titles. -/
theorem map_fst_titled (records : List Record) :
    (titled records).map Prod.fst = records.map (·.title) := by
  rw [titled, List.map_map]
  rfl

/-- The values of the entries are the records. -/
theorem map_snd_titled (records : List Record) : (titled records).map Prod.snd = records := by
  rw [titled, List.map_map]
  exact List.map_id records

/-- Collapsed records are entered under their titles. -/
theorem titled_dedupe (records : List Record) :
    titled (dedupe records) = (NameMap.ofList (titled records)).entries := by
  rw [titled, dedupe, NameMap.values, List.map_map]
  refine (List.map_congr_left fun entry mem => ?_).trans (List.map_id _)
  obtain ⟨record, -, rfl⟩ := List.mem_map.1 (NameMap.mem_of_mem_ofList mem)
  rfl

/-- Collapsed records have the titles that records are entered under. -/
theorem titles_dedupe (records : List Record) :
    (dedupe records).map (·.title) = (NameMap.ofList (titled records)).keys := by
  rw [← map_fst_titled, titled_dedupe]
  rfl

/-- Collapsing records keeps every title once. -/
theorem titles_dedupe_spec (records : List Record) :
    ((dedupe records).map (·.title)).Nodup ∧
      ∀ title, title ∈ (dedupe records).map (·.title) ↔ title ∈ records.map (·.title) := by
  rw [titles_dedupe]
  refine ⟨NameMap.distinct _, fun title => ?_⟩
  rw [NameMap.mem_keys_ofList, map_fst_titled]

/-- A collapsed record is the last one with its title. -/
theorem last_of_mem_dedupe {records : List Record} {record : Record}
    (mem : record ∈ dedupe records) : ∃ before behind, records = before ++ record :: behind ∧
      ∀ other ∈ behind, other.title ≠ record.title := by
  have entered : (record.title, record) ∈ (NameMap.ofList (titled records)).entries := by
    rw [← titled_dedupe]
    exact List.mem_map.2 ⟨record, mem, rfl⟩
  rw [← NameMap.find?_eq_some_iff, NameMap.find?_ofList, titled, ← List.map_reverse,
    List.find?_map, Option.map_map, Option.map_eq_some_iff] at entered
  obtain ⟨found, isLast, rfl⟩ := entered
  obtain ⟨-, behind, before, whole, others⟩ := List.find?_eq_some_iff_append.1 isLast
  refine ⟨before.reverse, behind.reverse, ?_, fun other isOther => ?_⟩
  · rw [← List.reverse_reverse records, whole]
    simp
  · simpa using others other (List.mem_reverse.1 isOther)

/-- Collapsing records leaves the last one of each title in the place of the first. -/
theorem collapses_dedupe (records : List Record) : Collapses records (dedupe records) where
  distinct := (titles_dedupe_spec records).1
  titles := (titles_dedupe_spec records).2
  ordered := by
    rw [titles_dedupe, ← map_fst_titled]
    exact NameMap.keys_ofList_ordered (titled records)
  last _ := last_of_mem_dedupe

/-- Collapsing records twice is collapsing them once. -/
theorem dedupe_dedupe (records : List Record) : dedupe (dedupe records) = dedupe records := by
  have same : NameMap.ofList (titled (dedupe records)) = NameMap.ofList (titled records) := by
    rw [titled_dedupe, NameMap.ofList_entries]
  exact congrArg NameMap.values same

/-- Records can be collapsed before those with some titles are dropped, or after it. -/
theorem dedupe_filter (keep : Text → Bool) (records : List Record) :
    dedupe (records.filter fun record => keep record.title) =
      (dedupe records).filter fun record => keep record.title := by
  have entries : titled (records.filter fun record => keep record.title) =
      (titled records).filter fun entry => keep entry.1 := by
    rw [titled, titled, List.filter_map]
    rfl
  have collapsed : titled (dedupe (records.filter fun record => keep record.title)) =
      titled ((dedupe records).filter fun record => keep record.title) := by
    rw [titled_dedupe, entries, NameMap.entries_ofList_filter, ← titled_dedupe, titled, titled,
      List.filter_map]
    rfl
  rw [← map_snd_titled (dedupe (records.filter _)), collapsed, map_snd_titled]

variable (options : Options) (records : List Record)

/-- Collapsing keeps only what is collapsed, so a selection of records has kept titles only. -/
theorem filter_select : (options.select records).filter (fun record => options.keeps record.title) =
    options.select records := by
  unfold select
  dsimp only
  split
  · rw [← dedupe_filter, List.filter_filter]
    simp
  · rw [List.filter_filter]
    simp

/-- Selecting records keeps those of the wanted kinds. If titles are collapsed, the last record of
each kept title stands in the place of the first; selecting again changes nothing, and the records
may as well be collapsed first. -/
theorem select_collapses :
    let kept := records.filter fun record => options.keeps record.title
    (options.dedupeTitles = true →
      Collapses kept (options.select records) ∧
      options.select (options.select records) = options.select records ∧
      dedupe kept = (dedupe records).filter fun record => options.keeps record.title) ∧
    (options.dedupeTitles = false → options.select records = kept) := by
  intro kept
  refine ⟨fun collapses => ?_, fun separate => ?_⟩
  · have selected : options.select records = dedupe kept := by
      rw [select, collapses, if_pos rfl]
    have again : options.select (options.select records) = dedupe (options.select records) := by
      conv_lhs => rw [select, collapses, if_pos rfl, filter_select]
    refine ⟨?_, ?_, dedupe_filter options.keeps records⟩
    · rw [selected]
      exact collapses_dedupe kept
    · rw [again, selected, dedupe_dedupe]
  · rw [select, separate, if_neg Bool.false_ne_true]

/-- Of two lemmas with one title the later takes the place of the earlier, in front of the theorem,
and the remarks are dropped. -/
theorem select_collapses_repeated :
    let lemmaBefore : Record := ⟨"Lemma 1.".toList, "first".toList, none⟩
    let remarkBefore : Record := ⟨"Remark".toList, "first".toList, none⟩
    let result : Record := ⟨"1. Theorem".toList, "only".toList, none⟩
    let lemmaAfter : Record := ⟨"Lemma 1.".toList, "last".toList, some "l".toList⟩
    let remarkAfter : Record := ⟨"Remark".toList, "last".toList, none⟩
    let records := [remarkBefore, lemmaBefore, result, lemmaAfter, remarkAfter]
    statements.dedupeTitles = true ∧ statements.select records = [lemmaAfter, result] ∧
      Collapses [lemmaBefore, result, lemmaAfter] (statements.select records) := by
  intro lemmaBefore remarkBefore result lemmaAfter remarkAfter records
  have kept : records.filter (fun record => statements.keeps record.title) =
      [lemmaBefore, result, lemmaAfter] := by decide +kernel
  have collapses := ((select_collapses statements records).1 rfl).1
  rw [kept] at collapses
  exact ⟨rfl, by decide +kernel, collapses⟩

end Options
end TexStatements
