import Mathlib.Data.Set.Function
import TexStatements.Proofs.Command.ReadOnly
import TexStatements.Proofs.Source.FileName
import TexStatements.Proofs.Text.Order

/-!
# The papers of a batch

A batch reads the entries of a directory: those that are directories are papers under their own
names, those that are document files under their names without the extension. Two papers share a
result exactly if one is a directory and the other the document file that has the name of the
directory with the extension added (`injOn_paperOutput_iff`).
-/
namespace TexStatements

/-- What the names of the entries of a directory are: names, and all different. -/
structure IsListing (names : List Text) : Prop where
  /-- No name is there twice. -/
  distinct : names.Nodup
  /-- Each is a name. -/
  areNames : ∀ name ∈ names, Path.IsFileName name

instance (names : List Text) : Decidable (IsListing names) :=
  decidable_of_iff (names.Nodup ∧ ∀ name ∈ names, Path.IsFileName name)
    ⟨fun ⟨distinct, areNames⟩ => ⟨distinct, areNames⟩,
      fun listing => ⟨listing.distinct, listing.areNames⟩⟩

namespace Host

/-- The paper that an entry of a directory is, given what the directories are. -/
def paper? (isDirectory : Text → Bool) (directory name : Text) : Option Paper :=
  let path := Path.join directory name
  if isDirectory path || Path.extension? path == some "tex".toList then
    some ⟨path, paperName path (isDirectory path)⟩
  else none

/-- The papers among the entries of a directory, given what the directories are. -/
def papersAmong (isDirectory : Text → Bool) (directory : Text) (names : List Text) : List Paper :=
  names.filterMap (paper? isDirectory directory)

/-- A directory and a document file lie next to each other that differ by the extension only. -/
def SharesResult (isDirectory : Text → Bool) (directory : Text) (names : List Text) : Prop :=
  ∃ name ∈ names, isDirectory (Path.join directory name) = true ∧
    name ++ sourceExtension ∈ names ∧
    isDirectory (Path.join directory (name ++ sourceExtension)) = false

instance (isDirectory : Text → Bool) (directory : Text) (names : List Text) :
    Decidable (SharesResult isDirectory directory names) :=
  inferInstanceAs (Decidable (∃ name ∈ names, _))

/-- The name of the file that the records of a paper are written to. -/
def Paper.resultName (paper : Paper) : Text := paper.name ++ ".json".toList

variable {isDirectory : Text → Bool} {directory output name : Text} {names : List Text}
  {paper first second : Paper}

/-- The papers of a directory with one more entry in front. -/
theorem papersAmong_cons : papersAmong isDirectory directory (name :: names) =
    (paper? isDirectory directory name).toList ++ papersAmong isDirectory directory names := by
  rw [papersAmong, List.filterMap_cons]
  cases paper? isDirectory directory name <;> rfl

/-- Papers are selected from a directory by looking at what is a directory, and nothing else. -/
theorem selectPapers_run {σ : Type} {host : Host (StateM σ)} {state : σ}
    (answers : ∀ path, (host.disk.isDirectory path).run state = (isDirectory path, state))
    (directory : Text) (names : List Text) :
    (host.selectPapers directory names).run state =
      (papersAmong isDirectory directory names, state) := by
  induction names with
  | nil => rfl
  | cons name names ih =>
    have looked := answers (Path.join directory name)
    rw [selectPapers, run_bind, looked]
    dsimp only
    rw [run_bind, ih]
    rw [papersAmong_cons, paper?]
    dsimp only
    split <;> rfl

/-- A directory is a paper under its own name. -/
theorem paper?_of_directory (isName : Path.IsFileName name)
    (kind : isDirectory (Path.join directory name) = true) :
    paper? isDirectory directory name = some ⟨Path.join directory name, name⟩ := by
  have called : paperName (Path.join directory name) true = name := by
    rw [paperName, if_pos rfl, Path.fileName?_join isName, Option.getD_some]
  rw [paper?, kind, Bool.true_or, if_pos rfl, called]

/-- The extension of document files has no point but the one in front. -/
theorem point_not_mem_tex : '.' ∉ "tex".toList := by decide

/-- A document file is a paper under its name without the extension. -/
theorem paper?_of_document (isName : Path.IsFileName (name ++ sourceExtension))
    (nonempty : name ≠ [])
    (kind : isDirectory (Path.join directory (name ++ sourceExtension)) = false) :
    paper? isDirectory directory (name ++ sourceExtension) =
      some ⟨Path.join directory (name ++ sourceExtension), name⟩ := by
  have extended : Path.extension? (Path.join directory (name ++ sourceExtension)) =
      some "tex".toList :=
    (Path.extension?_join_eq_iff isName point_not_mem_tex).2 ⟨name, nonempty, rfl⟩
  have stem : Path.stem? (Path.join directory (name ++ sourceExtension)) = some name :=
    Path.stem?_join isName nonempty point_not_mem_tex
  have called : paperName (Path.join directory (name ++ sourceExtension)) false = name := by
    rw [paperName, if_neg Bool.false_ne_true, stem, Option.getD_some]
  rw [paper?, kind, extended, Bool.false_or, if_pos (beq_self_eq_true _), called]

/-- An entry is a paper if it is a directory, under its name, or a document file, under its name
without the extension. -/
theorem paper?_eq_some_iff (isName : Path.IsFileName name) :
    paper? isDirectory directory name = some paper ↔
      paper.path = Path.join directory name ∧
        (isDirectory paper.path = true ∧ paper.name = name ∨
          isDirectory paper.path = false ∧ paper.name ≠ [] ∧
            name = paper.name ++ sourceExtension) := by
  obtain ⟨path, title⟩ := paper
  constructor
  · intro selected
    cases kind : isDirectory (Path.join directory name) with
    | true =>
      rw [paper?_of_directory isName kind] at selected
      cases selected
      exact ⟨rfl, .inl ⟨kind, rfl⟩⟩
    | false =>
      have extended : Path.extension? (Path.join directory name) = some "tex".toList := by
        rw [paper?, kind, Bool.false_or] at selected
        split at selected
        · exact beq_iff_eq.1 ‹_›
        · exact nomatch selected
      obtain ⟨stem, nonempty, rfl⟩ :=
        (Path.extension?_join_eq_iff isName point_not_mem_tex).1 extended
      have document := paper?_of_document isName nonempty kind
      cases document.symm.trans selected
      exact ⟨rfl, .inr ⟨kind, nonempty, rfl⟩⟩
  · dsimp only
    rintro ⟨rfl, ⟨kind, rfl⟩ | ⟨kind, nonempty, rfl⟩⟩
    · exact paper?_of_directory isName kind
    · exact paper?_of_document isName nonempty kind

/-- The papers of a directory are those that its entries are. -/
theorem mem_papersAmong_iff : paper ∈ papersAmong isDirectory directory names ↔
    ∃ name ∈ names, paper? isDirectory directory name = some paper := List.mem_filterMap

/-- Only its entry leads to the path of a paper. -/
theorem entry_unique {other : Text} (isName : Path.IsFileName name)
    (isOther : Path.IsFileName other)
    (selected : paper? isDirectory directory name = some paper)
    (otherSelected : paper? isDirectory directory other = some paper) : name = other := by
  have path := ((paper?_eq_some_iff isName).1 selected).1
  have otherPath := ((paper?_eq_some_iff isOther).1 otherSelected).1
  exact Path.join_right_injective isName.head?_ne isOther.head?_ne (path.symm.trans otherPath)

/-- No paper is listed twice. -/
theorem papersAmong_nodup (listing : IsListing names) :
    (papersAmong isDirectory directory names).Nodup := by
  refine List.pairwise_filterMap.2 (listing.distinct.imp_of_mem ?_)
  rintro name other mem otherMem different paper selected _ otherSelected rfl
  exact different (entry_unique (listing.areNames name mem) (listing.areNames other otherMem)
    selected otherSelected)

/-- The name of a result is a name, whatever the paper is. -/
theorem isFileName_resultName (listing : IsListing names)
    (mem : paper ∈ papersAmong isDirectory directory names) :
    Path.IsFileName paper.resultName := by
  obtain ⟨name, isEntry, selected⟩ := mem_papersAmong_iff.1 mem
  have isName := listing.areNames name isEntry
  have whole : ∀ c ∈ paper.name, (c == '/') = false := by
    rcases (paper?_eq_some_iff isName).1 selected with ⟨-, ⟨-, same⟩ | ⟨-, -, same⟩⟩
    · rw [same]
      exact isName.whole
    · rw [same] at isName
      exact fun c mem => isName.whole c (List.mem_append_left _ mem)
  exact Path.isFileName_append whole (by decide) (by decide) (by decide)

/-- The path of a result ends with its name. -/
theorem getLast?_fields_paperOutput (isName : Path.IsFileName paper.resultName) (output : Text) :
    ((paperOutput output paper).fields (· == '/')).getLast? = some paper.resultName :=
  Path.getLast?_fields_join isName output

/-- Papers of one name are one paper, or a directory and the document file with its name. -/
theorem eq_or_shares (listing : IsListing names)
    (isFirst : first ∈ papersAmong isDirectory directory names)
    (isSecond : second ∈ papersAmong isDirectory directory names)
    (same : first.name = second.name) :
    first = second ∨ SharesResult isDirectory directory names := by
  obtain ⟨name, mem, selected⟩ := mem_papersAmong_iff.1 isFirst
  obtain ⟨other, otherMem, otherSelected⟩ := mem_papersAmong_iff.1 isSecond
  obtain ⟨path, kind⟩ := (paper?_eq_some_iff (listing.areNames name mem)).1 selected
  obtain ⟨otherPath, otherKind⟩ :=
    (paper?_eq_some_iff (listing.areNames other otherMem)).1 otherSelected
  have equal (sameEntry : name = other) : first = second := by
    rw [sameEntry, otherSelected] at selected
    exact (Option.some.inj selected).symm
  rcases kind with ⟨kind, called⟩ | ⟨kind, -, called⟩ <;>
    rcases otherKind with ⟨otherKind, otherCalled⟩ | ⟨otherKind, -, otherCalled⟩
  · exact .inl (equal (called.symm.trans (same.trans otherCalled)))
  · have extended : other = name ++ sourceExtension := by
      rw [otherCalled, ← same, called]
    rw [path] at kind
    rw [otherPath, extended] at otherKind
    exact .inr ⟨name, mem, kind, extended ▸ otherMem, otherKind⟩
  · have extended : name = other ++ sourceExtension := by
      rw [called, same, otherCalled]
    rw [otherPath] at otherKind
    rw [path, extended] at kind
    exact .inr ⟨other, otherMem, otherKind, extended ▸ mem, kind⟩
  · exact .inl (equal (by rw [called, otherCalled, same]))

/-- Results of different papers have different names if none is shared. -/
theorem resultName_injOn (listing : IsListing names)
    (apart : ¬SharesResult isDirectory directory names) :
    Set.InjOn Paper.resultName {paper | paper ∈ papersAmong isDirectory directory names} := by
  intro first isFirst second isSecond same
  have called : first.name = second.name := List.append_cancel_right same
  exact (eq_or_shares listing isFirst isSecond called).resolve_right apart

/-- Different papers have different results exactly if no document file has the name of a directory
with the extension added. -/
theorem injOn_paperOutput_iff (listing : IsListing names) :
    Set.InjOn (paperOutput output) {paper | paper ∈ papersAmong isDirectory directory names} ↔
      ¬SharesResult isDirectory directory names := by
  constructor
  · rintro injective ⟨name, mem, kind, extendedMem, extendedKind⟩
    have isName := listing.areNames name mem
    have isExtended := listing.areNames _ extendedMem
    have isFirst := mem_papersAmong_iff.2 ⟨name, mem, paper?_of_directory isName kind⟩
    have isSecond := mem_papersAmong_iff.2
      ⟨_, extendedMem, paper?_of_document isExtended isName.nonempty extendedKind⟩
    have same := injective isFirst isSecond rfl
    have entries := Path.join_right_injective isName.head?_ne isExtended.head?_ne
      (congrArg Paper.path same)
    have longer := congrArg List.length entries
    have positive : 0 < sourceExtension.length := by decide
    rw [List.length_append] at longer
    omega
  · intro apart first isFirst second isSecond same
    have results : first.resultName = second.resultName :=
      Path.join_right_injective (isFileName_resultName listing isFirst).head?_ne
        (isFileName_resultName listing isSecond).head?_ne same
    exact resultName_injOn listing apart isFirst isSecond results

/-- The entries of a directory are the same when they are sorted. -/
theorem sort_isListing (listing : IsListing names) : IsListing (Text.sort names) where
  distinct := (List.mergeSort_perm names Text.atMost).nodup_iff.2 listing.distinct
  areNames name mem := listing.areNames name (Text.mem_sort.1 mem)

/-- A result is shared whatever the order of the entries is. -/
theorem sharesResult_sort : SharesResult isDirectory directory (Text.sort names) ↔
    SharesResult isDirectory directory names := by
  simp only [SharesResult, Text.mem_sort]

end Host
end TexStatements
