import TexStatements.Proofs.Source.Memory
import TexStatements.Proofs.Source.NormalPath
import TexStatements.Proofs.Text.Order
import TexStatements.Source.MainFile

/-!
# The main file as a root

The document files of a tree are the nodes of a graph, with an edge from each file to every other
one that it includes. The main file is taken from the files with a document class; from its roots,
those that no other file includes, if there are any. Scores only choose among these, so that the
main file is such a root if there is one (`mainFile_is_root`).
-/
namespace TexStatements

namespace Candidate

variable {candidates : List Candidate} {resolve : Text → Text → Text} {best : Candidate}

/-- The first of some candidates with the highest score is one of them, whatever the scores. -/
theorem foldl_best_mem (first : Candidate) (top : Float) (more : List Candidate) :
    (more.foldl (fun (best, top) candidate =>
      if top < candidate.score then (candidate, candidate.score) else (best, top))
      (first, top)).1 ∈ first :: more := by
  induction more generalizing first top with
  | nil => exact List.mem_cons_self ..
  | cons candidate more ih =>
    rw [List.foldl_cons]
    dsimp only
    split
    · exact List.mem_cons_of_mem _ (ih candidate candidate.score)
    · rcases List.mem_cons.1 (ih first top) with same | later
      · exact List.mem_cons.2 (.inl same)
      · exact List.mem_cons_of_mem _ (List.mem_cons_of_mem _ later)

/-- The best of some candidates is one of them. -/
theorem mem_of_best? (found : best? candidates = some best) : best ∈ candidates := by
  cases candidates with
  | nil => exact nomatch found
  | cons first more =>
    cases found
    exact foldl_best_mem first first.score more

/-- There is a best of some candidates unless there are none. -/
theorem best?_eq_none_iff : best? candidates = none ↔ candidates = [] := by
  cases candidates with
  | nil => exact iff_of_true rfl rfl
  | cons first more => exact iff_of_false nofun (List.cons_ne_nil first more)

/-- The candidates with a document class that no other candidate includes. -/
def roots (resolve : Text → Text → Text) (candidates : List Candidate) : List Candidate :=
  (candidates.filter hasClass).filter fun candidate =>
    !candidates.any fun other => includes resolve other candidate

/-- The candidates that are compared by their scores: the roots, or all with a document class if
there are none. -/
def competing (resolve : Text → Text → Text) (candidates : List Candidate) : List Candidate :=
  if (roots resolve candidates).isEmpty then candidates.filter hasClass
  else roots resolve candidates

/-- The main file is the best of those that are compared. -/
theorem main?_eq_best? : main? resolve candidates = best? (competing resolve candidates) := rfl

/-- A root is a candidate with a document class that no other candidate includes. -/
theorem mem_roots_iff {candidate : Candidate} : candidate ∈ roots resolve candidates ↔
    candidate ∈ candidates ∧ candidate.hasClass = true ∧
      ∀ other ∈ candidates, includes resolve other candidate = false := by
  rw [roots, List.mem_filter, List.mem_filter, and_assoc]
  simp

/-- Every candidate that is compared has a document class, and is a root if there is one. -/
theorem mem_competing {candidate : Candidate} (mem : candidate ∈ competing resolve candidates) :
    candidate ∈ candidates ∧ candidate.hasClass = true ∧
      (roots resolve candidates ≠ [] → candidate ∈ roots resolve candidates) := by
  rw [competing] at mem
  split at mem
  · rename_i none
    have ⟨isCandidate, classed⟩ := List.mem_filter.1 mem
    exact ⟨isCandidate, classed, fun some => absurd (List.isEmpty_iff.1 none) some⟩
  · have ⟨isCandidate, classed, _⟩ := mem_roots_iff.1 mem
    exact ⟨isCandidate, classed, fun _ => mem⟩

/-- No candidate is compared exactly if none has a document class. -/
theorem competing_eq_nil_iff : competing resolve candidates = [] ↔
    ∀ candidate ∈ candidates, candidate.hasClass = false := by
  constructor
  · intro none candidate mem
    rw [← Bool.not_eq_true]
    intro classed
    have isListed : candidate ∈ candidates.filter hasClass := List.mem_filter.2 ⟨mem, classed⟩
    rw [competing] at none
    split at none
    · exact absurd (none ▸ isListed) List.not_mem_nil
    · rename_i some
      exact some (List.isEmpty_iff.2 none)
  · intro unclassed
    refine List.eq_nil_iff_forall_not_mem.2 fun candidate mem => ?_
    have ⟨isCandidate, classed, _⟩ := mem_competing mem
    rw [unclassed candidate isCandidate] at classed
    exact Bool.false_ne_true classed

/-- There is no main file exactly if no candidate has a document class. -/
theorem main?_eq_none_iff :
    main? resolve candidates = none ↔ ∀ candidate ∈ candidates, candidate.hasClass = false := by
  rw [main?_eq_best?, best?_eq_none_iff, competing_eq_nil_iff]

/-- The main file has a document class, and no other candidate includes it if there is a candidate
of that kind. -/
theorem main?_isRoot (found : main? resolve candidates = some best) :
    best ∈ candidates ∧ best.hasClass = true ∧
      ((∃ root ∈ candidates, root.hasClass = true ∧
        ∀ other ∈ candidates, includes resolve other root = false) →
      ∀ other ∈ candidates, includes resolve other best = false) := by
  have ⟨isCandidate, classed, among⟩ := mem_competing (mem_of_best? found)
  refine ⟨isCandidate, classed, fun ⟨root, mem, isRoot⟩ => ?_⟩
  have inRoots : root ∈ roots resolve candidates := mem_roots_iff.2 ⟨mem, isRoot⟩
  exact (mem_roots_iff.1 (among (List.ne_nil_of_mem inRoots))).2.2

end Candidate

namespace MemoryTree

/-- The tree of some files, each a path with a content, added in order. -/
def ofFiles (base? : Option Text) (files : List (Text × Text)) : MemoryTree :=
  files.foldl (fun tree (path, content) => tree.add path content) { base? }

/-- A tree holds a document file at a path. -/
def Holds (tree : MemoryTree) (path content : Text) : Prop :=
  path ∈ tree.documentFiles ∧ tree.files.find? path = some content

/-- The document file at a path has a document class outside its comments. -/
def HasClass (tree : MemoryTree) (path : Text) : Prop :=
  ∃ content, tree.Holds path content ∧ documentClass.occursIn (Comment.strip content) = true

/-- The document file at a path includes the one at another path: the target of one of its
commands, comments aside, with the extension of documents if it lacks that, leads there from the
file or from the root. -/
def Includes (tree : MemoryTree) (path other : Text) : Prop :=
  path ≠ other ∧ other ∈ tree.documentFiles ∧ ∃ content, tree.Holds path content ∧
    ∃ found ∈ inclusion.occurrences (Comment.strip content),
      resolve path (Candidate.withExtension found.value.trim) = other ∨
        Path.normalize (Candidate.withExtension found.value.trim) = other

/-- The document file at a path as a candidate. -/
def candidate? (tree : MemoryTree) (path : Text) : Option Candidate :=
  (tree.find? path).map fun content => ⟨path, Comment.strip content⟩

section Candidates

variable {tree : MemoryTree} {path other content : Text} {candidate : Candidate}

/-- The files of a tree have normal paths. -/
theorem normalize_of_mem_keys (base? : Option Text) (files : List (Text × Text)) :
    ∀ path ∈ (ofFiles base? files).files.keys, Path.normalize path = path := by
  induction files using List.reverseRecOn with
  | nil => exact List.forall_mem_nil _
  | append_singleton files file ih =>
    obtain ⟨added, content⟩ := file
    have grown : (ofFiles base? (files ++ [(added, content)])).files =
        (ofFiles base? files).files.insert (Path.normalize added) content := by
      rw [ofFiles, List.foldl_append]
      rfl
    rw [grown, NameMap.keys_insert]
    split
    · exact ih
    · rw [List.forall_mem_append, List.forall_mem_singleton]
      exact ⟨ih, Path.normalize_normalize added⟩

/-- A document file is stored under its path. -/
theorem exists_holds (mem : path ∈ tree.documentFiles) : ∃ content, tree.Holds path content := by
  have stored : path ∈ tree.files.keys := by
    rw [documentFiles, Text.mem_sort, List.mem_filter] at mem
    exact mem.1
  obtain ⟨content, found⟩ := NameMap.mem_keys_iff.1 stored
  exact ⟨content, mem, found⟩

/-- The candidates of a tree in memory. -/
theorem toSourceTree_candidates (tree : MemoryTree) (paths : List Text) :
    tree.toSourceTree.candidates paths = (pure (paths.filterMap tree.candidate?) : Id _) := by
  induction paths with
  | nil => rfl
  | cons path paths ih =>
    rw [SourceTree.candidates, ih, List.filterMap_cons, candidate?]
    cases found : tree.find? path with
    | none =>
      have failed : (tree.toSourceTree.read path).run =
          (pure (.error (.notFound (Path.normalize path))) : Id _) := by
        show tree.read path = _
        rw [read, found]
        rfl
      rw [failed]
      rfl
    | some content =>
      rw [toSourceTree_read found]
      rfl

/-- The main file of a tree in memory. -/
theorem toSourceTree_mainFile? (tree : MemoryTree) :
    tree.toSourceTree.mainFile? = (pure ((Candidate.main? resolve
      (tree.documentFiles.filterMap tree.candidate?)).map (·.path)) : Id _) := by
  show (do
    let candidates ← tree.toSourceTree.candidates tree.documentFiles
    pure ((Candidate.main? resolve candidates).map (·.path)) : Id _) = _
  rw [toSourceTree_candidates, pure_bind]

variable (normal : ∀ path ∈ tree.files.keys, Path.normalize path = path)

include normal

/-- Where the paths are normal, the candidates are the document files. -/
theorem mem_candidates_iff : candidate ∈ tree.documentFiles.filterMap tree.candidate? ↔
    ∃ content, tree.Holds candidate.path content ∧ candidate.content = Comment.strip content := by
  have found {path content : Text} (stored : tree.files.find? path = some content) :
      tree.find? path = some content := by
    rw [find?, normal path (NameMap.mem_keys_iff.2 ⟨content, stored⟩), stored, Option.some_or]
  rw [List.mem_filterMap]
  constructor
  · rintro ⟨path, mem, isCandidate⟩
    obtain ⟨content, holds⟩ := exists_holds mem
    rw [candidate?, found holds.2] at isCandidate
    cases isCandidate
    exact ⟨content, holds, rfl⟩
  · rintro ⟨content, holds, code⟩
    refine ⟨candidate.path, holds.1, ?_⟩
    rw [candidate?, found holds.2, Option.map_some, ← code]

/-- A document file has a document class exactly if its candidate has one. -/
theorem hasClass_iff : tree.HasClass path ↔
    ∃ candidate ∈ tree.documentFiles.filterMap tree.candidate?,
      candidate.path = path ∧ candidate.hasClass = true := by
  constructor
  · rintro ⟨content, holds, present⟩
    exact ⟨⟨path, Comment.strip content⟩, (mem_candidates_iff normal).2 ⟨content, holds, rfl⟩, rfl,
      present⟩
  · rintro ⟨candidate, mem, rfl, present⟩
    obtain ⟨content, holds, code⟩ := (mem_candidates_iff normal).1 mem
    rw [Candidate.hasClass, code] at present
    exact ⟨content, holds, present⟩

/-- A document file is included by another one exactly if a candidate includes its candidate. -/
theorem exists_includes_iff (mem : candidate ∈ tree.documentFiles.filterMap tree.candidate?) :
    (∃ other, tree.Includes other candidate.path) ↔
      ∃ other ∈ tree.documentFiles.filterMap tree.candidate?,
        Candidate.includes resolve other candidate = true := by
  have targets (other : Candidate) : candidate.path ∈ other.targets resolve ↔
      ∃ found ∈ inclusion.occurrences other.content,
        resolve other.path (Candidate.withExtension found.value.trim) = candidate.path ∨
          Path.normalize (Candidate.withExtension found.value.trim) = candidate.path := by
    simp [Candidate.targets, eq_comm]
  obtain ⟨_, ⟨isFile, -⟩, -⟩ := (mem_candidates_iff normal).1 mem
  constructor
  · rintro ⟨other, different, -, content, holds, leads⟩
    refine ⟨⟨other, Comment.strip content⟩, (mem_candidates_iff normal).2 ⟨content, holds, rfl⟩, ?_⟩
    rw [Candidate.includes, Bool.and_eq_true, bne_iff_ne, List.contains_iff_mem, targets]
    exact ⟨different, leads⟩
  · rintro ⟨other, isOther, includes⟩
    obtain ⟨content, holds, code⟩ := (mem_candidates_iff normal).1 isOther
    rw [Candidate.includes, Bool.and_eq_true, bne_iff_ne, List.contains_iff_mem, targets,
      code] at includes
    exact ⟨other.path, includes.1, isFile, content, holds, includes.2⟩

end Candidates

/-- The main file is a root of the inclusion graph. There is one unless no document file has a
document class; it is a document file with a document class; and if there is a document file with a
document class that no other one includes, then the main file is one that no other one includes,
whatever the scores. -/
theorem mainFile_is_root (base? : Option Text) (files : List (Text × Text)) :
    let tree := ofFiles base? files
    let main? : Option Text := Id.run tree.toSourceTree.mainFile?
    (main? = none ↔ ∀ path, ¬tree.HasClass path) ∧
    ∀ main, main? = some main → tree.HasClass main ∧
      ((∃ root, tree.HasClass root ∧ ∀ other, ¬tree.Includes other root) →
        ∀ other, ¬tree.Includes other main) := by
  intro tree main?
  have normal : ∀ path ∈ tree.files.keys, Path.normalize path = path :=
    normalize_of_mem_keys base? files
  have result : main? = (Candidate.main? resolve
      (tree.documentFiles.filterMap tree.candidate?)).map (·.path) :=
    congrArg Id.run tree.toSourceTree_mainFile?
  have free {candidate : Candidate}
      (mem : candidate ∈ tree.documentFiles.filterMap tree.candidate?) :
      (∀ other, ¬tree.Includes other candidate.path) ↔
        ∀ other ∈ tree.documentFiles.filterMap tree.candidate?,
          Candidate.includes resolve other candidate = false := by
    rw [← not_exists, exists_includes_iff normal mem]
    simp
  constructor
  · rw [result, Option.map_eq_none_iff, Candidate.main?_eq_none_iff]
    constructor
    · intro none path present
      obtain ⟨candidate, mem, -, isTrue⟩ := (hasClass_iff normal).1 present
      rw [none candidate mem] at isTrue
      exact Bool.false_ne_true isTrue
    · intro none candidate mem
      rw [← Bool.not_eq_true]
      exact fun isTrue => none _ ((hasClass_iff normal).2 ⟨candidate, mem, rfl, isTrue⟩)
  · intro main found
    rw [result, Option.map_eq_some_iff] at found
    obtain ⟨best, chosen, rfl⟩ := found
    obtain ⟨mem, isTrue, isRoot⟩ := Candidate.main?_isRoot chosen
    refine ⟨(hasClass_iff normal).2 ⟨best, mem, rfl, isTrue⟩, ?_⟩
    rintro ⟨root, present, unincluded⟩
    obtain ⟨candidate, isCandidate, rfl, classed⟩ := (hasClass_iff normal).1 present
    exact (free mem).2 (isRoot ⟨candidate, isCandidate, classed, (free isCandidate).1 unincluded⟩)

/-- A paper, a section that includes itself, and a letter, each with a document class. The section
looks most like a paper but is included by the paper; the letter is included in a comment only. -/
def paperAndLetter : List (Text × Text) :=
  [("./paper.tex".toList, ("\\documentclass\x7barticle\x7d\\title\x7bT\x7d" ++
      "\\input\x7b sections/one \x7d % \\input\x7bletter\x7d").toList),
    ("sections\\one.tex".toList, ("\\documentclass\x7bpart\x7d\\title\x7bT\x7d" ++
      "\\author\x7bA\x7d\\maketitle\\input\x7bone\x7d").toList),
    ("letter.tex".toList, "\\documentclass\x7bletter\x7d".toList)]

/-- The letter is a root, so that the main file is one: not the section, whose score is higher. -/
theorem mainFile_is_root_paper :
    let tree := ofFiles none paperAndLetter
    Id.run tree.toSourceTree.mainFile? = some "paper.tex".toList ∧
      (∃ root, tree.HasClass root ∧ ∀ other, ¬tree.Includes other root) ∧
      ∀ other, ¬tree.Includes other "paper.tex".toList := by
  intro tree
  have documents : tree.documentFiles =
      ["letter.tex", "paper.tex", "sections/one.tex"].map String.toList :=
    Text.sort_eq (by decide +kernel) (by decide +kernel)
  have found : Id.run tree.toSourceTree.mainFile? = some "paper.tex".toList := by
    rw [toSourceTree_mainFile?, documents]
    decide +kernel
  have letter : tree.Holds "letter.tex".toList "\\documentclass\x7bletter\x7d".toList :=
    ⟨by rw [documents]; decide, by decide +kernel⟩
  have normal : ∀ path ∈ tree.files.keys, Path.normalize path = path :=
    normalize_of_mem_keys none paperAndLetter
  have unincluded : ∀ other, ¬tree.Includes other "letter.tex".toList := by
    let candidate : Candidate :=
      ⟨"letter.tex".toList, Comment.strip "\\documentclass\x7bletter\x7d".toList⟩
    have isCandidate : candidate ∈ tree.documentFiles.filterMap tree.candidate? :=
      (mem_candidates_iff normal).2 ⟨_, letter, rfl⟩
    have searched := exists_includes_iff normal isCandidate
    rw [documents] at searched
    exact not_exists.1 (searched.not.2 (by decide +kernel))
  have root : ∃ root, tree.HasClass root ∧ ∀ other, ¬tree.Includes other root :=
    ⟨_, ⟨_, letter, by decide +kernel⟩, unincluded⟩
  have isRoot := ((mainFile_is_root none paperAndLetter).2 _ found).2 root
  exact ⟨found, root, isRoot⟩

end MemoryTree
end TexStatements
