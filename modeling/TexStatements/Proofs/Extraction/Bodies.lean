import TexStatements.Proofs.Extraction.Records
import TexStatements.Proofs.NameMap
import TexStatements.Proofs.Statement.Provenance

/-!
# Bodies of records

A body is cut from the text with canonical tags, or from the text itself where there are too few.
Either way it is a piece of the document, but the tags of statements inside the statement are
canonical ones by then, and they stay in its body.
-/
namespace TexStatements

/-- Selected records are records. -/
theorem Options.select_subset (options : Options) (records : List Record) :
    options.select records ⊆ records := by
  have kept : (records.filter fun record => options.keeps record.title) ⊆ records :=
    List.filter_sublist.subset
  unfold select
  dsimp only
  split
  · intro record mem
    obtain ⟨entry, isEntry, rfl⟩ := List.mem_map.1 mem
    obtain ⟨original, isOriginal, rfl⟩ := List.mem_map.1 (NameMap.mem_of_mem_ofList isEntry)
    exact kept isOriginal
  · exact kept

/-- A body is made from a piece of the document: either from the piece as it is, or, if the piece
holds tags of the environments, from what it becomes with canonical tags. -/
def Document.MadeFrom (document : Document) (options : Options) (piece body : Text) : Prop :=
  piece <:+: document.text ∧
    (body = (StatementBody.ofRaw piece).text ∨
      body = (StatementBody.ofRaw (canonicalize piece (document.environments options))).text ∧
        ∃ part, ∃ name ∈ document.environments options,
          Environment.End.tag part name <:+: piece)

namespace Document

variable {document : Document} {options : Options}

/-- What a piece becomes with canonical tags makes a body. -/
theorem madeFrom_canonicalize {piece : Text} (isPiece : piece <:+: document.text) :
    document.MadeFrom options piece
      (StatementBody.ofRaw (canonicalize piece (document.environments options))).text := by
  refine ⟨isPiece, ?_⟩
  by_cases tagged : ∃ part, ∃ name ∈ document.environments options,
      Environment.End.tag part name <:+: piece
  · exact .inr ⟨rfl, tagged⟩
  · rw [Environment.canonicalize_of_absent fun part name listed occurs =>
      tagged ⟨part, name, listed, occurs⟩]
    exact .inl rfl

/-- Every body of a document is made from a piece of it. -/
theorem exists_madeFrom_of_mem_bodies {body : StatementBody}
    (mem : body ∈ document.bodies options) :
    ∃ piece, document.MadeFrom options piece body.text := by
  obtain ⟨original, isOriginal, sameText, -⟩ := StatementBody.mem_keepLastLabels mem
  obtain ⟨region, isRegion, rfl⟩ := List.mem_map.1 isOriginal
  obtain ⟨piece, isPiece, same⟩ := StatementRegion.exists_piece_of_mem isRegion
  rw [sameText, ← same]
  exact ⟨piece, madeFrom_canonicalize isPiece⟩

/-- Every record of a part is made from a piece of the document. -/
theorem exists_madeFrom_of_mem_recordsIn {part : Region} {record : Record}
    (mem : record ∈ document.recordsIn options part) :
    ∃ piece, document.MadeFrom options piece record.body := by
  rcases mem_pairBodies mem with ⟨body, isBody, text, -⟩ | ⟨-, raw, text, made⟩
  · rw [text]
    exact exists_madeFrom_of_mem_bodies (document.bodiesIn_subset options part isBody)
  · refine ⟨raw, ?_, .inl text⟩
    rcases made with rfl | ⟨occurrence, isOccurrence, rfl⟩
    · exact List.nil_infix
    · exact body_infix_of_mem_locate (document.occurrencesIn_subset options part isOccurrence)

end Document

/-- A claim inside a theorem. -/
def claimInTheorem : Text :=
  ("\\begin\x7btheorem\x7dA \\begin\x7bclaim\x7dB\\end\x7bclaim\x7d C" ++
    "\\end\x7btheorem\x7d").toList

/-- The record of the inner statement has its text, that of the outer one has canonical tags. -/
theorem extract_claimInTheorem :
    (extract claimInTheorem Options.default).records =
      [⟨"Theorem 1.".toList, "A ".toList ++ Environment.beginTag canonicalEnvironment ++
          "B".toList ++ Environment.endTag canonicalEnvironment ++ " C".toList, none⟩,
        ⟨"Claim 1.".toList, "B".toList, none⟩] := by
  have located : (Document.ofText claimInTheorem).located Options.default = _ :=
    locate_of_pairwise (by decide +kernel)
  -- The claim is closed first, so the regions are found in the opposite order.
  have regions : (Document.ofText claimInTheorem).regions Options.default = _ :=
    mergeSort_eq_of_perm (List.reverse_perm _).symm (by decide +kernel)
  rw [extract_all_records rfl rfl]
  simp only [Document.recordsIn, Document.headingsIn, Document.occurrencesIn,
    Document.markersIn, Document.bodiesIn, Document.bodies, Document.mainCount, located, regions]
  decide +kernel

/-- Every extracted body is made from a piece of the normalized document: from the piece as it is,
unless there are tags of theorem-like environments in it. So a body has the canonical name in it
only where the document has it itself, or where statements are nested. -/
theorem bodies_are_document_text (raw : Text) (options : Options) :
    ∀ record ∈ (extract raw options).records, ∃ piece,
      (Document.ofText raw).MadeFrom options piece record.body ∧
        (canonicalEnvironment <:+: record.body →
          canonicalEnvironment <:+: (StatementBody.ofRaw piece).text ∨
            ∃ part, ∃ name ∈ (Document.ofText raw).environments options,
              Environment.End.tag part name <:+: piece) := by
  intro record mem
  have isRecord := options.select_subset _ (extract_records raw options ▸ mem)
  have made : ∃ piece, (Document.ofText raw).MadeFrom options piece record.body := by
    rcases List.mem_append.1 isRecord with isMain | isAppendix
    · exact Document.exists_madeFrom_of_mem_recordsIn isMain
    · exact Document.exists_madeFrom_of_mem_recordsIn isAppendix
  obtain ⟨piece, made⟩ := made
  refine ⟨piece, made, fun leaks => ?_⟩
  rcases made.2 with asItIs | ⟨-, tagged⟩
  · exact .inl (asItIs ▸ leaks)
  · exact .inr tagged

/-- The body of the inner statement is made from a piece of the document. -/
theorem body_of_claim_is_document_text :
    (⟨"Claim 1.".toList, "B".toList, none⟩ : Record) ∈
        (extract claimInTheorem Options.default).records ∧
      ∃ piece, (Document.ofText claimInTheorem).MadeFrom Options.default piece "B".toList := by
  have mem : (⟨"Claim 1.".toList, "B".toList, none⟩ : Record) ∈
      (extract claimInTheorem Options.default).records := by
    rw [extract_claimInTheorem]
    exact List.mem_cons_of_mem _ (List.mem_cons_self ..)
  obtain ⟨piece, made, -⟩ := bodies_are_document_text claimInTheorem Options.default _ mem
  exact ⟨mem, piece, made⟩

/-- The canonical name is in the body of the theorem, though neither the text nor the list of
environments has it. -/
theorem canonical_tags_in_body :
    ¬ canonicalEnvironment <:+: claimInTheorem ∧
      canonicalEnvironment ∉ (Document.ofText claimInTheorem).environments Options.default ∧
      ∃ record ∈ (extract claimInTheorem Options.default).records,
        record.body = "A ".toList ++ Environment.beginTag canonicalEnvironment ++ "B".toList ++
          Environment.endTag canonicalEnvironment ++ " C".toList ∧
        canonicalEnvironment <:+: record.body := by
  rw [extract_claimInTheorem]
  exact ⟨by decide +kernel, by decide +kernel, _, List.mem_cons_self .., rfl, by decide +kernel⟩

-- The name may also be the document's own: a label that is taken out leaves it behind.
example : canonicalEnvironment <:+:
    (StatementBody.ofRaw "theorex@\\label\x7ba\x7dstatement".toList).text := by
  decide +kernel

end TexStatements
