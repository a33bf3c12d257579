import TexStatements.Proofs.Counter.Course
import TexStatements.Proofs.Extraction.Ends
import TexStatements.Proofs.Extraction.Parts
import TexStatements.Proofs.Extraction.WarningKinds
import TexStatements.Proofs.Macro.Resolution
import TexStatements.Proofs.Statement.Agreement
import TexStatements.Proofs.Statement.Body

/-!
# Records and occurrences

Every occurrence gives one record, whatever the scan of bodies finds: the headings decide how many
records there are and in which order, and bodies are paired with them or made up for. Where the two
searches differ in number, a warning says so. All of this is so for each text whose expansions end,
and the others have no records (`records_of_occurrences`).
-/
namespace TexStatements

/-- The occurrences of a text are ordered by their offsets, through both parts. -/
theorem locate_ordered (text : Text) (environments : List Text) :
    (locate text environments).all.Pairwise fun earlier later => earlier.offset ≤ later.offset := by
  have offsets : ((locate text environments).all.map (·.offset)).Pairwise (· ≤ ·) := by
    rw [map_all_locate fun _ _ _ => rfl]
    exact List.pairwise_map.2 (mergeSort_ordered Occurrence.offset _)
  exact List.pairwise_map.1 offsets

/-- Occurrences that the scans give in the order of the text are left in it. -/
theorem locate_of_pairwise {text : Text} {environments : List Text}
    (ordered : (environments.flatMap fun name =>
      (EnvironmentScan.ofName name text).occurrences name).Pairwise
        fun earlier later => earlier.offset < later.offset) :
    let found := environments.flatMap fun name =>
      (EnvironmentScan.ofName name text).occurrences name
    let isBefore (found : Occurrence) := isBeforeCut (appendixCut? text) found.offset
    locate text environments =
      { main := Occurrence.place .main (found.takeWhile isBefore)
        appendix := Occurrence.place .appendix (found.dropWhile isBefore)
        cut? := appendixCut? text
        warnings := environments.flatMap fun name =>
          (EnvironmentScan.ofName name text).warnings name } := by
  have sorted := mergeSort_eq_of_perm (List.Perm.refl _) ordered
  simp only [locate, List.flatMap_map, sorted]

/-- The search for occurrences warns of environments that are left open. -/
theorem locate_warnings (text : Text) (environments : List Text) :
    Warning.OfKinds [.unterminatedEnvironment] (locate text environments).warnings := by
  intro warning mem
  simp only [locate, List.flatMap_map, List.mem_flatMap] at mem
  obtain ⟨name, -, warned⟩ := mem
  unfold EnvironmentScan.warnings at warned
  split at warned
  · rw [List.mem_singleton.1 warned]
    exact List.mem_singleton_self _
  · cases warned

/-- A part is warned of exactly when its bodies and headings differ in number. -/
theorem mem_countWarnings {part region : Region} {found bodies titles headings : Nat} :
    .bodyCount part bodies headings ∈ countWarnings region found titles ↔
      part = region ∧ bodies = found ∧ headings = titles ∧ bodies ≠ headings := by
  unfold countWarnings
  split
  · rename_i same
    simp only [List.not_mem_nil, false_iff]
    rintro ⟨-, rfl, rfl, different⟩
    exact different same
  · rename_i different
    simp only [List.mem_singleton, Warning.bodyCount.injEq]
    constructor
    · rintro ⟨rfl, rfl, rfl⟩
      exact ⟨rfl, rfl, rfl, different⟩
    · rintro ⟨rfl, rfl, rfl, -⟩
      exact ⟨rfl, rfl, rfl⟩

/-- A record in the form in which it is returned: its body is a trimmed line, and so is its label,
which is not empty. -/
structure Record.Clean (record : Record) : Prop where
  /-- The body is a trimmed line. -/
  body : record.body.Line
  /-- So is the label. -/
  label : ∀ label ∈ record.label?, label ≠ [] ∧ label.Line

/-- Headings that are paired with clean bodies give clean records. -/
theorem clean_pairBodies {titles : List Text} {bodies : List StatementBody}
    {occurrences : List Occurrence} (clean : ∀ body ∈ bodies, body.Clean) :
    ∀ record ∈ pairBodies titles bodies occurrences, record.Clean := by
  intro record mem
  rcases mem_pairBodies mem with ⟨body, isBody, text, label⟩ | ⟨unlabeled, raw, text, -⟩
  · refine ⟨text ▸ (clean body isBody).text, ?_⟩
    rw [label]
    exact (clean body isBody).label
  · refine ⟨text ▸ (StatementBody.clean_ofRaw raw).text, ?_⟩
    rw [unlabeled]
    exact fun label named => by cases named

namespace Document

variable (document : Document) (options : Options)

/-- The statements of a part of the document as they are numbered. -/
def numberedIn (part : Region) : List NumberingPlan.Numbered :=
  (document.plan options).numbered (document.occurrencesIn options part)
    (document.markersIn options part) (part = .appendix)

/-- They are the occurrences of that part. -/
theorem map_occurrence_numberedIn (part : Region) :
    (document.numberedIn options part).map (·.occurrence) = document.occurrencesIn options part :=
  NumberingPlan.map_occurrence_numbered _ _ _ _

/-- They have the headings of that part. -/
theorem map_title_numberedIn (part : Region) :
    (document.numberedIn options part).map (·.title) = document.headingsIn options part :=
  NumberingPlan.map_title_numbered _ _ _ _

/-- The headings of a part contain the captions of its occurrences, one by one. -/
theorem captions_headingsIn (part : Region) :
    List.Forall₂ (fun occurrence title =>
        (document.plan options).caption occurrence.environment <:+: title)
      (document.occurrencesIn options part) (document.headingsIn options part) := by
  rw [← map_occurrence_numberedIn, ← map_title_numberedIn, List.forall₂_map_left_iff,
    List.forall₂_map_right_iff, List.forall₂_same]
  exact NumberingPlan.caption_infix_numbered _ _ _ _

/-- The bodies of a document are clean. -/
theorem clean_bodies : ∀ body ∈ document.bodies options, body.Clean := by
  refine StatementBody.Clean.keepLastLabels fun body mem => ?_
  obtain ⟨region, -, rfl⟩ := List.mem_map.1 mem
  exact StatementBody.clean_ofRaw region.body

/-- So are the records of each of its parts. -/
theorem clean_recordsIn (part : Region) :
    ∀ record ∈ document.recordsIn options part, record.Clean := by
  exact clean_pairBodies fun body mem =>
    document.clean_bodies options body (document.bodiesIn_subset options part mem)

/-- A normalized document is extracted with a warning about the bodies of a part exactly when these
differ in number from the headings of that part. -/
theorem bodyCount_mem_warnings (quiet : Warning.OfKinds documentKinds document.warnings)
    {part : Region} {bodies headings : Nat} :
    .bodyCount part bodies headings ∈ (Extraction.ofDocument document options).warnings ↔
      bodies = (document.bodiesIn options part).length ∧
        headings = (document.headingsIn options part).length ∧ bodies ≠ headings := by
  have other {kinds : List WarningKind} {warnings : List Warning}
      (holds : Warning.OfKinds kinds warnings) (unlisted : .countMismatch ∉ kinds) :
      .bodyCount part bodies headings ∉ warnings := fun mem => unlisted (holds _ mem)
  have first := other quiet (by decide)
  have second := other (locate_warnings document.text (document.environments options)) (by decide)
  have third := other (NumberingPlan.number_warnings (document.plan options)
    (document.occurrencesIn options .main) (document.markersIn options .main) false) (by decide)
  rw [ofDocument_warnings]
  simp only [List.mem_append, first, located, second, third, false_or, mem_countWarnings]
  cases part <;> simp

end Document

/-- Records that are neither selected by their kinds nor collapsed are all there. -/
theorem Options.select_eq_self {options : Options} (all : options.kinds? = none)
    (separate : options.dedupeTitles = false) (records : List Record) :
    options.select records = records := by
  have keep : ∀ record ∈ records, options.keeps record.title = true := by
    intro record _
    rw [keeps, all]
  rw [select, separate, List.filter_eq_self.2 keep]
  rfl

/-- They are those of the two parts of the document. -/
theorem extract_all_records {options : Options} (all : options.kinds? = none)
    (separate : options.dedupeTitles = false) (raw : Text) :
    (extract raw options).records = (Document.ofText raw).recordsIn options .main ++
      (Document.ofText raw).recordsIn options .appendix :=
  (extract_records raw options).trans (Options.select_eq_self all separate _)

/-- An extraction has one record for each occurrence that is located in a document, with the title
that the numbering plan gives to the occurrence, and warns of bodies that are missing or too
many. -/
structure Extraction.Complete (document : Document) (options : Options)
    (extraction : Extraction) : Prop where
  /-- There are as many records as occurrences. -/
  count : extraction.records.length =
    (document.located options).main.length + (document.located options).appendix.length
  /-- The occurrences are in the order of their offsets. -/
  ordered : (document.located options).all.Pairwise fun earlier later =>
    earlier.offset ≤ later.offset
  /-- The plan gives one heading to each occurrence of a part. -/
  numbered : ∀ part, (document.headingsIn options part).length =
    (document.occurrencesIn options part).length
  /-- The titles are these headings, those of the main part first. -/
  titles : extraction.records.map (·.title) =
    document.headingsIn options .main ++ document.headingsIn options .appendix
  /-- The title of a record contains the caption of its occurrence. -/
  captions : List.Forall₂ (fun occurrence record =>
    (document.plan options).caption occurrence.environment <:+: record.title)
      (document.located options).all extraction.records
  /-- A warning is given for the bodies of a part exactly when they differ in number from its
  headings. -/
  mismatches : ∀ part bodies headings, .bodyCount part bodies headings ∈ extraction.warnings ↔
    bodies = (document.bodiesIn options part).length ∧
      headings = (document.headingsIn options part).length ∧ bodies ≠ headings
  /-- All bodies are trimmed lines, and so are all labels, none of which is empty. -/
  clean : ∀ record ∈ extraction.records, record.Clean

/-- Without a selection, the statements of a text are complete. -/
theorem complete_extract (raw : Text) {options : Options} (all : options.kinds? = none)
    (separate : options.dedupeTitles = false) :
    (extract raw options).Complete (Document.ofText raw) options := by
  have whole := extract_all_records all separate raw
  have titles : (extract raw options).records.map (·.title) =
      (Document.ofText raw).headingsIn options .main ++
        (Document.ofText raw).headingsIn options .appendix := by
    rw [whole, List.map_append, Document.map_title_recordsIn, Document.map_title_recordsIn]
  have captions : List.Forall₂ (fun occurrence title =>
      ((Document.ofText raw).plan options).caption occurrence.environment <:+: title)
      ((Document.ofText raw).located options).all
      ((extract raw options).records.map (·.title)) := by
    rw [titles]
    exact List.rel_append ((Document.ofText raw).captions_headingsIn options .main)
      ((Document.ofText raw).captions_headingsIn options .appendix)
  refine ⟨?_, locate_ordered _ _, fun _ => NumberingPlan.length_number _ _ _ _, titles,
    List.forall₂_map_right_iff.1 captions, fun part bodies headings => ?_, fun record mem => ?_⟩
  · have count := captions.length_eq
    rw [List.length_map, Located.all, List.length_append] at count
    exact count.symm
  · exact (Document.ofText raw).bodyCount_mem_warnings options (Document.ofText_warnings raw)
  · rw [whole, List.mem_append] at mem
    rcases mem with isMain | isAppendix
    · exact (Document.ofText raw).clean_recordsIn options .main record isMain
    · exact (Document.ofText raw).clean_recordsIn options .appendix record isAppendix

/-- Without a selection, extraction has a result exactly if the recursion into arguments ends for
each text that is expanded. Then it returns one record for each located occurrence, in the order of
their offsets, whose title is the one that the numbering plan gives to the occurrence; a warning is
given for the bodies of a part exactly when they differ in number from its titles, and all bodies
and labels are clean. -/
theorem records_of_occurrences (raw : Text) (options : Options) (all : options.kinds? = none)
    (separate : options.dedupeTitles = false) :
    ((extract? raw options).isSome = true ↔
      ∀ expansion ∈ Document.expansions raw, Acc expansion.1.Enters expansion.2) ∧
    ∀ extraction ∈ extract? raw options, extraction.Complete (Document.ofText raw) options := by
  refine ⟨extract?_isSome_iff, fun extraction returned => ?_⟩
  rw [eq_extract_of_mem returned]
  exact complete_extract raw all separate

/-- A claim that overlaps a lemma: the tags close each other in turn, but not by their names. -/
def overlappingStatements : Text :=
  ("\\begin\x7bclaim\x7dA.\\end\x7blemma\x7d" ++
    "\\begin\x7blemma\x7dB.\\end\x7bclaim\x7d").toList

/-- The claim gives one record, though two bodies are found, and a warning says so. -/
theorem records_of_overlapping_occurrences :
    Options.default.kinds? = none ∧ Options.default.dedupeTitles = false ∧
      ∃ extraction, extract? overlappingStatements Options.default = some extraction ∧
        extraction.records.length = 1 ∧ .bodyCount .main 2 1 ∈ extraction.warnings := by
  obtain ⟨returns, complete⟩ :=
    records_of_occurrences overlappingStatements Options.default rfl rfl
  have ends : Document.ends overlappingStatements = true := by decide +kernel
  obtain ⟨extraction, returned⟩ := Option.isSome_iff_exists.1 (returns.2 (Document.ends_iff.1 ends))
  have records := complete extraction returned
  have located : (Document.ofText overlappingStatements).located Options.default = _ :=
    locate_of_pairwise (by decide +kernel)
  have regions : (Document.ofText overlappingStatements).regions Options.default = _ :=
    mergeSort_eq_of_perm (List.Perm.refl _) (by decide +kernel)
  refine ⟨rfl, rfl, extraction, returned, ?_, (records.mismatches _ _ _).2 ⟨?_, ?_, by decide⟩⟩
  · rw [records.count, located]
    decide +kernel
  · rw [Document.bodiesIn, List.length_take, Document.bodies, Document.mainCount, regions]
    decide +kernel
  · rw [Document.headingsIn, NumberingPlan.length_number, Document.occurrencesIn, located]
    decide +kernel

/-- A statement that calls a macro whose default is a call of the same macro, without an
argument. -/
def selfReachingDefault : Text :=
  ("\\newcommand\x7b\\a\x7d[1][\\a]\x7b(#1)\x7d" ++
    "\\begin\x7btheorem\x7d\\a\\end\x7btheorem\x7d").toList

/-- The statement has no record: the default is entered inside itself, so that expanding the text
does not end. -/
theorem no_records_of_selfReachingDefault :
    Options.default.kinds? = none ∧ Options.default.dedupeTitles = false ∧
      extract? selfReachingDefault Options.default = none := by
  have left : (DefinitionFamily.operator.expand
      (DefinitionFamily.primitive.expand (Comment.strip selfReachingDefault)).text).text =
        selfReachingDefault := by decide +kernel
  have expanded := Document.mem_expansions_of_command left
    (DefinitionFamily.text_mem_expansions .command selfReachingDefault)
  have endless : (MacroTable.collect NameMap.empty .command selfReachingDefault).2.1.resolve.1.ends
      (MacroTable.collect NameMap.empty .command selfReachingDefault).1 = false := by
    have acyclic := MacroTable.acyclic_of_upwards
      (MacroTable.collect NameMap.empty .command selfReachingDefault).2.1 (fun _ => 0)
      (by decide +kernel)
    rw [MacroTable.resolve_eq_foldl acyclic (List.Perm.refl _) (by decide +kernel)]
    decide +kernel
  refine ⟨rfl, rfl, Option.not_isSome_iff_eq_none.1 fun returned => ?_⟩
  have ends := MacroTable.ends_iff_acc.2 (extract?_isSome_iff.1 returned _ expanded)
  rw [endless] at ends
  cases ends

end TexStatements
