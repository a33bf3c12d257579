import TexStatements.Extraction

/-!
# The parts of an extraction

A document is extracted in two parts, before the appendix and from it on. Each part has its
occurrences, its sectioning commands, its headings and its bodies, and the records of the document
are those of the main part followed by those of the appendix.
-/
namespace TexStatements

section Pairing

variable {title : Text} {titles : List Text} {bodies : List StatementBody}
  {occurrences : List Occurrence}

/-- The record of a heading, with the body that is paired with it, or else with the text of the
occurrence. -/
def pairBody (title : Text) (body? : Option StatementBody) (occurrence? : Option Occurrence) :
    Record :=
  match body? with
  | some body => ⟨title, body.text, body.label?⟩
  | none => ⟨title, (StatementBody.ofRaw ((occurrence?.map (·.body)).getD [])).text, none⟩

/-- Without headings there are no records. -/
@[simp] theorem pairBodies_nil : pairBodies [] bodies occurrences = [] := rfl

/-- The first heading is paired with the first body, and the others with the others. -/
@[simp] theorem pairBodies_cons :
    pairBodies (title :: titles) bodies occurrences =
      pairBody title bodies.head? occurrences.head? ::
        pairBodies titles bodies.tail occurrences.tail := by
  rw [pairBodies, List.mapIdx_cons, pairBodies]
  congr 1
  · rw [List.head?_eq_getElem?, List.head?_eq_getElem?]
    cases bodies[0]? <;> cases occurrences[0]? <;> rfl
  · simp only [List.getElem?_tail]

/-- A record has its heading as its title. -/
@[simp] theorem title_pairBody (body? : Option StatementBody) (occurrence? : Option Occurrence) :
    (pairBody title body? occurrence?).title = title := by
  cases body? <;> rfl

/-- The records have the headings as their titles, whatever bodies there are. -/
@[simp] theorem map_title_pairBodies (titles : List Text) (bodies : List StatementBody)
    (occurrences : List Occurrence) :
    (pairBodies titles bodies occurrences).map (·.title) = titles := by
  induction titles generalizing bodies occurrences with
  | nil => rfl
  | cons title titles ih => simp [ih]

/-- A record has the body and the label of one of the bodies, or else the text of one of the
occurrences, or no text at all. -/
theorem mem_pairBodies {record : Record} (mem : record ∈ pairBodies titles bodies occurrences) :
    (∃ body ∈ bodies, record.body = body.text ∧ record.label? = body.label?) ∨
      record.label? = none ∧ ∃ raw, record.body = (StatementBody.ofRaw raw).text ∧
        (raw = [] ∨ ∃ occurrence ∈ occurrences, raw = occurrence.body) := by
  induction titles generalizing bodies occurrences with
  | nil => simp at mem
  | cons title titles ih =>
    rw [pairBodies_cons, List.mem_cons] at mem
    rcases mem with rfl | later
    · cases bodies with
      | cons body more => exact .inl ⟨body, List.mem_cons_self .., rfl, rfl⟩
      | nil =>
        refine .inr ⟨rfl, _, rfl, ?_⟩
        cases occurrences with
        | nil => exact .inl rfl
        | cons occurrence more => exact .inr ⟨occurrence, List.mem_cons_self .., rfl⟩
    · rcases ih later with ⟨body, isBody, same⟩ | ⟨unlabeled, raw, same, empty | found⟩
      · exact .inl ⟨body, List.mem_of_mem_tail isBody, same⟩
      · exact .inr ⟨unlabeled, raw, same, .inl empty⟩
      · obtain ⟨occurrence, isOccurrence, text⟩ := found
        exact .inr ⟨unlabeled, raw, same,
          .inr ⟨occurrence, List.mem_of_mem_tail isOccurrence, text⟩⟩

/-- The labels of the records are some of those of the bodies, in their order. -/
theorem labels_pairBodies_sublist (titles : List Text) (bodies : List StatementBody)
    (occurrences : List Occurrence) :
    ((pairBodies titles bodies occurrences).filterMap (·.label?)).Sublist
      (bodies.filterMap (·.label?)) := by
  induction titles generalizing bodies occurrences with
  | nil => exact List.nil_sublist _
  | cons title titles ih =>
    rw [pairBodies_cons]
    cases bodies with
    | nil => simpa [pairBody] using ih [] occurrences.tail
    | cons body more =>
      have later := ih more occurrences.tail
      cases label : body.label? with
      | none => simpa [pairBody, label] using later
      | some kept => simpa [pairBody, label] using later

end Pairing

namespace Document

variable (document : Document) (options : Options)

/-- The environments that count as theorem-like. -/
def environments : List Text :=
  (EnvironmentChoice.ofDeclarations document.declarations options).names

/-- The occurrences of these environments. -/
def located : Located := locate document.text (document.environments options)

/-- The plan that numbers the occurrences. -/
def plan : NumberingPlan := NumberingPlan.new document (SectionMarker.ofText document.text) options

/-- The text with canonical tags. -/
def canonicalText : Text := canonicalize document.text (document.environments options)

/-- The statements of the text with canonical tags. -/
def regions : List StatementRegion := StatementRegion.ofText (document.canonicalText options)

/-- The bodies of these statements, with the labels that they keep. -/
def bodies : List StatementBody :=
  StatementBody.keepLastLabels
    ((document.regions options).map fun region => StatementBody.ofRaw region.body)

/-- Number of these statements before the appendix. -/
def mainCount : Nat :=
  ((document.regions options).takeWhile fun region =>
    isBeforeCut (appendixCut? (document.canonicalText options)) region.start).length

/-- The occurrences in a part of the document. -/
def occurrencesIn : Region → List Occurrence
  | .main => (document.located options).main
  | .appendix => (document.located options).appendix

/-- The sectioning commands in a part of the document. -/
def markersIn : Region → List SectionMarker
  | .main => (SectionMarker.ofText document.text).filter fun marker =>
      isBeforeCut (document.located options).cut? marker.offset
  | .appendix => (SectionMarker.ofText document.text).filter fun marker =>
      !isBeforeCut (document.located options).cut? marker.offset

/-- The headings of the occurrences in a part of the document. -/
def headingsIn (part : Region) : List Text :=
  ((document.plan options).number (document.occurrencesIn options part)
    (document.markersIn options part) (part = .appendix)).1

/-- The bodies in a part of the document. -/
def bodiesIn : Region → List StatementBody
  | .main => (document.bodies options).take (document.mainCount options)
  | .appendix => (document.bodies options).drop (document.mainCount options)

/-- The records of a part of the document. -/
def recordsIn (part : Region) : List Record :=
  pairBodies (document.headingsIn options part) (document.bodiesIn options part)
    (document.occurrencesIn options part)

/-- A document is extracted with its own warnings, those of the two searches, and those of bodies
and headings that differ in number. -/
theorem ofDocument_warnings :
    (Extraction.ofDocument document options).warnings =
      document.warnings ++ (document.located options).warnings ++
        ((document.plan options).number (document.occurrencesIn options .main)
          (document.markersIn options .main) false).2 ++
        countWarnings .main (document.bodiesIn options .main).length
          (document.headingsIn options .main).length ++
        countWarnings .appendix (document.bodiesIn options .appendix).length
          (document.headingsIn options .appendix).length := rfl

/-- The two parts have all bodies. -/
theorem bodiesIn_append :
    document.bodiesIn options .main ++ document.bodiesIn options .appendix =
      document.bodies options := List.take_append_drop _ _

/-- The records of a part have its headings as their titles. -/
theorem map_title_recordsIn (part : Region) :
    (document.recordsIn options part).map (·.title) = document.headingsIn options part :=
  map_title_pairBodies _ _ _

/-- The bodies of a part are bodies of the document. -/
theorem bodiesIn_subset (part : Region) :
    document.bodiesIn options part ⊆ document.bodies options := by
  rw [← bodiesIn_append]
  cases part
  · exact List.subset_append_left _ _
  · exact List.subset_append_right _ _

/-- The occurrences of a part are occurrences of the document. -/
theorem occurrencesIn_subset (part : Region) :
    document.occurrencesIn options part ⊆ (document.located options).all := by
  cases part
  · exact List.subset_append_left _ _
  · exact List.subset_append_right _ _

end Document

/-- Extracted records are selected from those of the normalized document. -/
theorem extract_records (raw : Text) (options : Options) :
    (extract raw options).records =
      options.select ((Document.ofText raw).recordsIn options .main ++
        (Document.ofText raw).recordsIn options .appendix) := rfl

end TexStatements
