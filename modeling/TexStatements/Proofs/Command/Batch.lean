import Mathlib.Data.List.Nodup
import Mathlib.Tactic.Choose
import TexStatements.Command.Session
import TexStatements.Proofs.Command.Papers
import TexStatements.Proofs.Source.Volume

/-!
# The results of a batch

The papers of a batch are run one after the other. Extracting a paper changes nothing, and writing
its records puts in one file (`run_runPaper`), so that a result stays as it is while later papers
have results of other names (`stores_afterPapers`). A batch that writes all its papers therefore
leaves each with a result of its own (`HasResults`), unless a directory and a document file share
one (`batch_keeps_results`).
-/
namespace TexStatements

/-- What is written to a file for records. -/
def resultBytes (records : List Record) : List UInt8 :=
  Utf8.encode (Json.records records ++ ['\n'])

/-- The line that tells that a paper was written. -/
def successLine (output : Text) (paper : Host.Paper) (count : Nat) : Text :=
  "✓ ".toList ++ Host.paperOutput output paper ++ " (".toList ++ Host.statementCount count ++
    ")\n".toList

/-- The line that tells that a paper was not written, and why. -/
def failureLine (paper : Host.Paper) (failure : Failure) : Text :=
  "✗ ".toList ++ paper.name ++ " - ".toList ++ failure.message ++ ['\n']

namespace Session

open Host (Paper paperOutput)

variable {session made : Session} {input output path text : Text} {options : Options}
  {timeout : Nat} {paper : Paper} {papers before more : List Paper}

section Paper

/-- The disk of a session is looked at without a change. -/
theorem readsOnly_disk : disk.ReadsOnly where
  isFile _ _ := rfl
  isDirectory _ _ := rfl
  readFile path session := by
    unfold disk
    dsimp only [StateT.run]
    split <;> rfl
  filesBelow _ _ := rfl

/-- Papers are read without a change of the session. -/
theorem readsOnly_host : host.ReadsOnly where
  disk := readsOnly_disk
  within seconds action leaves := by
    show LeavesState (if seconds = 0 then pure none else some <$> action)
    split
    · exact .pure none
    · exact leaves.map some

/-- What is written to a path that leads to no device is written on the volume. -/
theorem run_writeFile (noDevice : ∀ device, session.volume.find path ≠ .device device) :
    (disk.writeFile path text).run session =
      match session.volume.write path (Utf8.encode text) with
      | .ok volume => (.ok (), { session with volume := volume })
      | .error error => (.error error, session) := by
  unfold disk
  dsimp only [StateT.run]
  split
  · exact absurd ‹_› (noDevice .output)
  · exact absurd ‹_› (noDevice .errors)
  · rfl

/-- No device has the name of a result. -/
theorem resultName_noDevice (paper : Paper) (device : Device) :
    ¬paper.resultName <:+ device.path := by
  intro ends
  have extension : ".json".toList <:+ device.path := (List.suffix_append _ _).trans ends
  revert extension
  cases device <;> decide

/-- Records are written on the volume, and counted. -/
theorem run_writeRecords (noDevice : ∀ device, session.volume.find path ≠ .device device)
    (records : List Record) :
    (host.writeRecords path records).run.run session =
      match session.volume.write path (resultBytes records) with
      | .ok volume => (.ok records.length, { session with volume := volume })
      | .error error => (.error error.toFailure, session) := by
  have written : (ExceptT.adapt DiskError.toFailure (ExceptT.mk (host.disk.writeFile path
      (Json.records records ++ ['\n'])))).run.run session =
      Prod.map (Except.mapError DiskError.toFailure) id
        ((disk.writeFile path (Json.records records ++ ['\n'])).run session) := rfl
  rw [Host.writeRecords, ExceptT.run_bind, run_bind, written, run_writeFile noDevice, resultBytes]
  cases session.volume.write path (Utf8.encode (Json.records records ++ ['\n'])) <;> rfl

/-- A paper is extracted and its records are written, unless one of these fails. -/
theorem run_runPaper (isName : Path.IsFileName paper.resultName) :
    (host.runPaper output options timeout paper).run session =
      match ((host.extractPaper paper.path options timeout).run.run session).1 with
      | .error failure => (false, session.report (failureLine paper failure))
      | .ok extraction =>
        match session.volume.write (paperOutput output paper)
          (resultBytes extraction.records) with
        | .error error => (false, session.report (failureLine paper error.toFailure))
        | .ok volume =>
          (true, Session.report (successLine output paper extraction.records.length)
            { session with volume := volume }) := by
  have last := Host.getLast?_fields_paperOutput isName output
  have noDevice := Volume.find_ne_device isName last (resultName_noDevice paper) session.volume
  have kept := readsOnly_host.extractPaper paper.path options timeout session
  have extracted : (host.extractPaper paper.path options timeout).run.run session =
      (((host.extractPaper paper.path options timeout).run.run session).1, session) :=
    Prod.ext rfl kept
  rw [Host.runPaper, run_bind, ExceptT.run_bind, run_bind, extracted]
  cases ((host.extractPaper paper.path options timeout).run.run session).1 with
  | error failure => rfl
  | ok extraction =>
    dsimp only
    rw [run_writeRecords noDevice extraction.records]
    cases session.volume.write (paperOutput output paper) (resultBytes extraction.records) <;> rfl

end Paper

section Run

/-- The session after a paper. -/
def afterPaper (output : Text) (options : Options) (timeout : Nat) (session : Session)
    (paper : Paper) : Session :=
  ((host.runPaper output options timeout paper).run session).2

/-- The session after papers, one after the other. -/
def afterPapers (output : Text) (options : Options) (timeout : Nat) (papers : List Paper)
    (session : Session) : Session :=
  papers.foldl (afterPaper output options timeout) session

/-- Whether a paper is written when its turn comes. -/
def writes (output : Text) (options : Options) (timeout : Nat) (session : Session)
    (paper : Paper) : Bool :=
  ((host.runPaper output options timeout paper).run session).1

/-- Of papers that are run in order, those that are written are counted. -/
theorem run_runPapers_cons (session : Session) :
    (host.runPapers output options timeout (paper :: papers)).run session =
      let others := (host.runPapers output options timeout papers).run
        (afterPaper output options timeout session paper)
      (others.1 + if writes output options timeout session paper then 1 else 0, others.2) := rfl

/-- Papers that are run leave the session that they lead to one after the other. -/
theorem run_runPapers_snd (papers : List Paper) (session : Session) :
    ((host.runPapers output options timeout papers).run session).2 =
      afterPapers output options timeout papers session := by
  induction papers generalizing session with
  | nil => rfl
  | cons paper papers ih =>
    rw [run_runPapers_cons]
    exact ih _

/-- No more papers are written than there are. -/
theorem run_runPapers_le (output : Text) (options : Options) (timeout : Nat)
    (papers : List Paper) (session : Session) :
    ((host.runPapers output options timeout papers).run session).1 ≤ papers.length := by
  induction papers generalizing session with
  | nil => exact Nat.le_refl 0
  | cons paper papers ih =>
    have others := ih (afterPaper output options timeout session paper)
    rw [run_runPapers_cons, List.length_cons]
    dsimp only
    split <;> omega

/-- If as many papers are written as there are, each is written when its turn comes. -/
theorem writes_of_all (all : ((host.runPapers output options timeout
      (before ++ paper :: more)).run session).1 = (before ++ paper :: more).length) :
    writes output options timeout (afterPapers output options timeout before session) paper =
      true := by
  induction before generalizing session with
  | nil =>
    have others := run_runPapers_le output options timeout more
      (afterPaper output options timeout session paper)
    rw [List.nil_append, run_runPapers_cons, List.length_cons] at all
    dsimp only at all
    split at all
    · assumption
    · omega
  | cons first before ih =>
    have others := run_runPapers_le output options timeout (before ++ paper :: more)
      (afterPaper output options timeout session first)
    rw [List.cons_append, run_runPapers_cons, List.length_cons] at all
    dsimp only at all
    refine ih ?_
    split at all <;> omega

end Run

section Results

/-- A paper that is written leaves its records in a file to which its output leads. -/
theorem stores_of_writes (isName : Path.IsFileName paper.resultName)
    (written : writes output options timeout session paper = true) :
    ∃ extraction around,
      ((host.extractPaper paper.path options timeout).run.run session).1 = .ok extraction ∧
      (afterPaper output options timeout session paper).volume.Stores (paperOutput output paper)
        (Volume.child around paper.resultName) (resultBytes extraction.records) := by
  rw [writes, run_runPaper isName] at written
  rw [afterPaper, run_runPaper isName]
  cases extracted : ((host.extractPaper paper.path options timeout).run.run session).1 with
  | error failure =>
    rw [extracted] at written
    exact nomatch written
  | ok extraction =>
    rw [extracted] at written
    dsimp only at written ⊢
    cases success : session.volume.write (paperOutput output paper)
      (resultBytes extraction.records) with
    | error error =>
      rw [success] at written
      exact nomatch written
    | ok volume =>
      obtain ⟨around, -, stores⟩ := Volume.write_eq_ok isName
        (Host.getLast?_fields_paperOutput isName output) (resultName_noDevice paper) success
      exact ⟨extraction, around, rfl, stores⟩

variable {around name file : Text} {content : List UInt8}

/-- A paper leaves a stored file as it is unless it has the name of the result. -/
theorem stores_afterPaper (isName : Path.IsFileName paper.resultName)
    (isFile : Path.IsFileName name) (apart : name ≠ paper.resultName)
    (stores : session.volume.Stores path (Volume.child around name) content) :
    (afterPaper output options timeout session paper).volume.Stores path
      (Volume.child around name) content := by
  rw [afterPaper, run_runPaper isName]
  cases ((host.extractPaper paper.path options timeout).run.run session).1 with
  | error failure => exact stores
  | ok extraction =>
    dsimp only
    cases success : session.volume.write (paperOutput output paper)
      (resultBytes extraction.records) with
    | error error => exact stores
    | ok volume =>
      obtain ⟨other, rfl, -⟩ := Volume.write_eq_ok isName
        (Host.getLast?_fields_paperOutput isName output) (resultName_noDevice paper) success
      have different : Volume.child around name ≠ Volume.child other paper.resultName :=
        fun same => apart (Volume.child_injective isFile isName same)
      exact stores.withFile different _

/-- Papers leave a stored file as it is unless it has the name of a result of theirs. -/
theorem stores_afterPapers (isFile : Path.IsFileName name)
    (areNames : ∀ paper ∈ papers, Path.IsFileName paper.resultName)
    (apart : ∀ paper ∈ papers, name ≠ paper.resultName)
    (stores : session.volume.Stores path (Volume.child around name) content) :
    (afterPapers output options timeout papers session).volume.Stores path
      (Volume.child around name) content := by
  induction papers generalizing session with
  | nil => exact stores
  | cons paper papers ih =>
    rw [List.forall_mem_cons] at areNames apart
    exact ih areNames.2 apart.2 (stores_afterPaper areNames.1 isFile apart.1 stores)

/-- Each of some papers that were run has a file of its own, to which its output leads, with the
records of the extraction that was made when its turn came. -/
def HasResults (output : Text) (options : Options) (timeout : Nat) (papers : List Paper)
    (start after : Session) : Prop :=
  ∃ file : Paper → Text, Set.InjOn file {paper | paper ∈ papers} ∧
    ∀ before paper more, papers = before ++ paper :: more → ∃ extraction,
      ((host.extractPaper paper.path options timeout).run.run
        (afterPapers output options timeout before start)).1 = .ok extraction ∧
      after.volume.Stores (paperOutput output paper) (file paper)
        (resultBytes extraction.records)

/-- If the names of results are different and each paper is written when its turn comes, each has a
result in the end. -/
theorem hasResults (areNames : ∀ paper ∈ papers, Path.IsFileName paper.resultName)
    (distinct : (papers.map Paper.resultName).Nodup)
    (all : ((host.runPapers output options timeout papers).run session).1 = papers.length) :
    HasResults output options timeout papers session
      (afterPapers output options timeout papers session) := by
  have each (before : List Paper) (paper : Paper) (more : List Paper)
      (divided : papers = before ++ paper :: more) : ∃ extraction around,
        ((host.extractPaper paper.path options timeout).run.run
          (afterPapers output options timeout before session)).1 = .ok extraction ∧
        (afterPapers output options timeout papers session).volume.Stores
          (paperOutput output paper) (Volume.child around paper.resultName)
          (resultBytes extraction.records) := by
    subst divided
    have isName := areNames paper (by simp)
    obtain ⟨extraction, around, extracted, stores⟩ := stores_of_writes isName (writes_of_all all)
    refine ⟨extraction, around, extracted, ?_⟩
    have apart : ∀ other ∈ more, paper.resultName ≠ other.resultName := by
      rw [List.map_append, List.map_cons] at distinct
      have here := (List.nodup_cons.1 (List.nodup_append.1 distinct).2.1).1
      exact fun other mem same => here (same ▸ List.mem_map_of_mem mem)
    have later : ∀ other ∈ more, Path.IsFileName other.resultName :=
      fun other mem => areNames other (by simp [mem])
    rw [afterPapers, List.foldl_append, List.foldl_cons]
    exact stores_afterPapers isName later apart stores
  have placed : ∀ paper ∈ papers, ∃ around,
      (afterPapers output options timeout papers session).volume.find
        (paperOutput output paper) = .file (Volume.child around paper.resultName) := by
    intro paper mem
    obtain ⟨before, more, divided⟩ := List.append_of_mem mem
    obtain ⟨extraction, around, extracted, stores⟩ := each before paper more divided
    exact ⟨around, stores.found⟩
  choose! around found using placed
  refine ⟨fun paper => Volume.child (around paper) paper.resultName, ?_, ?_⟩
  · intro first isFirst second isSecond same
    have results := Volume.child_injective (areNames first isFirst) (areNames second isSecond) same
    exact List.inj_on_of_nodup_map distinct isFirst isSecond results
  · intro before paper more divided
    obtain ⟨extraction, other, extracted, stores⟩ := each before paper more divided
    have mem : paper ∈ papers := by simp [divided]
    have sameFile := (found paper mem).symm.trans stores.found
    refine ⟨extraction, extracted, ?_⟩
    dsimp only
    rw [Volume.Place.file.inj sameFile]
    exact stores

/-- Papers that have results of their own are written to different paths. -/
theorem HasResults.injOn_paperOutput {start after : Session}
    (results : HasResults output options timeout papers start after) :
    Set.InjOn (paperOutput output) {paper | paper ∈ papers} := by
  obtain ⟨file, injective, each⟩ := results
  have found : ∀ paper ∈ papers,
      after.volume.find (paperOutput output paper) = .file (file paper) := by
    intro paper mem
    obtain ⟨before, more, divided⟩ := List.append_of_mem mem
    obtain ⟨extraction, -, stores⟩ := each before paper more divided
    exact stores.found
  intro first isFirst second isSecond same
  have sameFound := found first isFirst
  rw [same, found second isSecond] at sameFound
  exact injective isFirst isSecond (Volume.Place.file.inj sameFound).symm

end Results

section Batch

variable {statements : Bool} {names : List Text}

/-- Whether a session has a directory at a path. -/
def holdsDirectory (session : Session) (path : Text) : Bool :=
  ((disk.isDirectory path).run session).1

/-- The papers of a batch, given the names of the entries of its directory. -/
def batchPapers (session : Session) (input : Text) (names : List Text) : List Paper :=
  Host.papersAmong session.holdsDirectory input (Text.sort names)

/-- The options of a batch. -/
def batchOptions (statements : Bool) : Options := Host.extractOptions none statements true

/-- The papers of entries that are in order. -/
theorem batchPapers_of_ordered (ordered : names.Pairwise fun left right => Text.atMost left right)
    (session : Session) (input : Text) :
    session.batchPapers input names =
      Host.papersAmong session.holdsDirectory input names := by
  rw [batchPapers, Text.sort_eq (List.Perm.refl names) ordered]

/-- The papers of a batch are listed once the entries of its directory are. -/
theorem run_listPapers (listed : session.volume.entries input = .ok names) :
    (host.listPapers input).run.run session = (.ok (session.batchPapers input names), session) := by
  have entries : (ExceptT.adapt DiskError.toFailure
      (ExceptT.mk (host.disk.entries input))).run.run session = (.ok names, session) := by
    show Prod.map (Except.mapError DiskError.toFailure) id
      ((session.volume.entries input, session) : _ × Session) = _
    rw [listed]
    rfl
  have answers : ∀ path, (host.disk.isDirectory path).run session =
      (session.holdsDirectory path, session) := fun _ => rfl
  rw [Host.listPapers, ExceptT.run_bind, run_bind, entries]
  show Prod.map Except.ok id ((host.selectPapers input (Text.sort names)).run session) = _
  rw [Host.selectPapers_run answers]
  rfl

/-- Once its directory is there and its papers are listed, a batch runs them and sums up. -/
theorem run_batch (prepared : (disk.makeDirectories output).run session = (.ok (), made))
    (listed : (host.listPapers input).run.run made = (.ok papers, made)) :
    (host.batch input output timeout statements).run.run session =
      let ran := (host.runPapers output (batchOptions statements) timeout papers).run made
      (.ok 0, ran.2.report (Host.batchSummary ran.1 papers.length)) := by
  have directory : (ExceptT.adapt DiskError.toFailure
      (ExceptT.mk (host.disk.makeDirectories output))).run.run session = (.ok (), made) := by
    show Prod.map (Except.mapError DiskError.toFailure) id
      ((disk.makeDirectories output).run session) = _
    rw [prepared]
    rfl
  rw [Host.batch, ExceptT.run_bind, run_bind, directory]
  dsimp only
  rw [ExceptT.run_bind, run_bind, listed]
  rfl

/-- A session whose files hold documents. -/
def ofDocuments (documents : List (Text × Text)) : Session where
  volume := documents.foldl
    (fun volume (path, content) => volume.place path (Utf8.encode content)) {}

/-- Two papers in files. -/
def twoFiles : Session :=
  ofDocuments [("in/a.tex".toList, "\\begin\x7btheorem\x7dA\\end\x7btheorem\x7d".toList),
    ("in/b.tex".toList, "\\begin\x7blemma\x7dB\\end\x7blemma\x7d".toList)]

/-- A paper in a directory, and one in a file that has the name of the directory with the extension
added. -/
def directoryAndFile : Session :=
  ofDocuments [("in/a.tex".toList, "\\begin\x7btheorem\x7dA\\end\x7btheorem\x7d".toList),
    ("in/a/m.tex".toList, "\\documentclass\x7barticle\x7d".toList)]

/-- Different papers of a directory are written to different paths exactly if no document file there
has the name of a directory with the extension added. A batch that writes all its papers says so,
and leaves each of them with a result of its own in exactly the same case. -/
theorem batch_keeps_results {input output : Text} {names : List Text} (listing : IsListing names) :
    (∀ {σ : Type} {host : Host (StateM σ)} {state : σ} {isDirectory : Text → Bool},
      (∀ path, (host.disk.isDirectory path).run state = (isDirectory path, state)) →
      (Set.InjOn (paperOutput output)
          {paper | paper ∈ ((host.selectPapers input names).run state).1} ↔
        ¬Host.SharesResult isDirectory input names)) ∧
    ∀ {session made : Session} {timeout : Nat} {statements : Bool} {papers : List Paper},
      (disk.makeDirectories output).run session = (.ok (), made) →
      made.volume.entries input = .ok names →
      ((host.listPapers input).run.run made).1 = .ok papers →
      ((host.runPapers output (batchOptions statements) timeout papers).run made).1 =
        papers.length →
      ∃ after, (host.batch input output timeout statements).run.run session =
          (.ok 0, after.report (Host.batchSummary papers.length papers.length)) ∧
        (HasResults output (batchOptions statements) timeout papers made after ↔
          ¬Host.SharesResult made.holdsDirectory input names) := by
  constructor
  · intro σ host state isDirectory answers
    rw [Host.selectPapers_run answers]
    exact Host.injOn_paperOutput_iff listing
  · intro session made timeout statements papers prepared entries selected all
    have listed := run_listPapers entries
    rw [listed] at selected
    obtain rfl := Except.ok.inj selected
    refine ⟨afterPapers output (batchOptions statements) timeout (made.batchPapers input names)
      made, ?_, ?_⟩
    · rw [run_batch prepared listed]
      dsimp only
      rw [all, run_runPapers_snd]
    · have sorted := Host.sort_isListing listing
      rw [← Host.sharesResult_sort]
      constructor
      · intro results
        exact (Host.injOn_paperOutput_iff sorted).1 results.injOn_paperOutput
      · intro apart
        have distinct : (made.batchPapers input names).Nodup := Host.papersAmong_nodup sorted
        have results := distinct.map_on (Host.resultName_injOn sorted apart)
        exact hasResults (fun paper mem => Host.isFileName_resultName sorted mem) results all

/-- The results of two papers in files are both there in the end. -/
theorem batch_keeps_results_twoFiles :
    let names := ["a.tex".toList, "b.tex".toList]
    let made := ((disk.makeDirectories "out".toList).run twoFiles).2
    let papers := made.batchPapers "in".toList names
    Set.InjOn (paperOutput "out".toList)
        {paper | paper ∈ ((host.selectPapers "in".toList names).run made).1} ∧
      papers.length = 2 ∧
      ∃ after, (host.batch "in".toList "out".toList 30 false).run.run twoFiles =
          (.ok 0, after.report (Host.batchSummary papers.length papers.length)) ∧
        HasResults "out".toList (batchOptions false) 30 papers made after := by
  intro names made papers
  have listing : IsListing names := by decide
  have prepared : (disk.makeDirectories "out".toList).run twoFiles = (.ok (), made) :=
    Prod.ext (by decide +kernel) rfl
  have listed : made.volume.entries "in".toList = .ok names := by decide +kernel
  have selected : papers = Host.papersAmong made.holdsDirectory "in".toList names :=
    batchPapers_of_ordered (by decide +kernel) made "in".toList
  have count : papers.length = 2 := by
    rw [selected]
    decide +kernel
  have all : ((host.runPapers "out".toList (batchOptions false) 30 papers).run made).1 =
      papers.length := by
    rw [selected]
    decide +kernel
  have apart : ¬Host.SharesResult made.holdsDirectory "in".toList names := by decide +kernel
  have answers : ∀ path, (host.disk.isDirectory path).run made =
      (made.holdsDirectory path, made) := fun _ => rfl
  have found : ((host.listPapers "in".toList).run.run made).1 = .ok papers :=
    congrArg Prod.fst (run_listPapers listed)
  obtain ⟨injective, kept⟩ := batch_keeps_results listing
  obtain ⟨after, ran, results⟩ := kept prepared listed found all
  exact ⟨(injective answers).2 apart, count, after, ran, results.2 apart⟩

/-- Of a directory and a file with the same name but for the extension both are parsed, but only one
has a result in the end. -/
theorem batch_loses_result :
    let names := ["a".toList, "a.tex".toList]
    let made := ((disk.makeDirectories "out".toList).run directoryAndFile).2
    let papers := made.batchPapers "in".toList names
    IsListing names ∧ made.volume.entries "in".toList = .ok names ∧ papers.length = 2 ∧
      ((host.runPapers "out".toList (batchOptions false) 30 papers).run made).1 =
        papers.length ∧
      ¬Set.InjOn (paperOutput "out".toList) {paper | paper ∈ papers} ∧
      ∀ after, ¬HasResults "out".toList (batchOptions false) 30 papers made after := by
  intro names made papers
  have listing : IsListing names := by decide
  have listed : made.volume.entries "in".toList = .ok names := by decide +kernel
  have selected : papers = Host.papersAmong made.holdsDirectory "in".toList names :=
    batchPapers_of_ordered (by decide +kernel) made "in".toList
  have count : papers.length = 2 := by
    rw [selected]
    decide +kernel
  have all : ((host.runPapers "out".toList (batchOptions false) 30 papers).run made).1 =
      papers.length := by
    rw [selected]
    decide +kernel
  have shared : Host.SharesResult made.holdsDirectory "in".toList names := by decide +kernel
  have notInjective : ¬Set.InjOn (paperOutput "out".toList) {paper | paper ∈ papers} := by
    rw [selected, Host.injOn_paperOutput_iff listing]
    exact fun apart => apart shared
  exact ⟨listing, listed, count, all, notInjective,
    fun after results => notInjective results.injOn_paperOutput⟩

end Batch
end Session
end TexStatements
