import TexStatements.Proofs.NameMap
import TexStatements.Source.Inline

/-!
# Files in memory

The files of a memory tree are a map from normalized paths, and a path is tried as it stands and
with the extension of documents (`read_add`). A file that was located is therefore there to be read,
so that inlining never fails: gathering packages is the derivation `Gathers`, in which every package
is met with its source.
-/
namespace TexStatements
namespace MemoryTree

variable {tree : MemoryTree} {path : Text}

section Store

/-- The content of a file after another was added. -/
theorem find?_add (tree : MemoryTree) (path content query : Text) :
    (tree.add path content).find? query =
      if Path.normalize query = Path.normalize path ∨
          Path.normalize query ∉ tree.files.keys ∧
            Path.normalize query ++ sourceExtension = Path.normalize path
      then some content else tree.find? query := by
  simp only [find?, add, NameMap.find?_insert, eq_comm (a := Path.normalize path)]
  by_cases same : Path.normalize query = Path.normalize path
  · rw [if_pos same, if_pos (Or.inl same), Option.some_or]
  · simp only [same, if_false, false_or]
    cases stored : tree.files.find? (Path.normalize query) with
    | some other =>
      have known : Path.normalize query ∈ tree.files.keys := NameMap.mem_keys_iff.2 ⟨other, stored⟩
      rw [Option.some_or, Option.some_or, if_neg fun both => both.1 known]
    | none =>
      have absent : Path.normalize query ∉ tree.files.keys := by
        rw [NameMap.mem_keys_iff, stored]
        exact fun ⟨_, found⟩ => nomatch found
      simp only [Option.none_or, absent, not_false_eq_true, true_and]

/-- A file is read exactly if there is one. -/
theorem read_eq_ok_iff {content : Text} :
    tree.read path = .ok content ↔ tree.find? path = some content := by
  rw [read]
  cases tree.find? path <;> simp

/-- A file is there exactly if it can be read. -/
theorem hasFile_iff : tree.hasFile path = true ↔ ∃ content, tree.read path = .ok content := by
  simp only [hasFile, read_eq_ok_iff, Option.isSome_iff_exists]

/-- What is read after a file was added. -/
theorem read_add (tree : MemoryTree) (path content query : Text) :
    (tree.add path content).read query =
      if Path.normalize query = Path.normalize path ∨
          Path.normalize query ∉ tree.files.keys ∧
            Path.normalize query ++ sourceExtension = Path.normalize path
      then .ok content else tree.read query := by
  rw [read, find?_add]
  by_cases leads : Path.normalize query = Path.normalize path ∨
      Path.normalize query ∉ tree.files.keys ∧
        Path.normalize query ++ sourceExtension = Path.normalize path
  · rw [if_pos leads, if_pos leads]
  · rw [if_neg leads, if_neg leads, read]

end Store

section Location

/-- The file that a target in the current file names, relative to that file or to the root. -/
def locate? (tree : MemoryTree) (current target : Text) : Option Text :=
  [resolve current target, Path.normalize target].find? tree.hasFile

/-- The first of some paths at which there is a file. -/
theorem firstFile?_eq (tree : MemoryTree) (paths : List Text) :
    tree.toSourceTree.firstFile? paths = (pure (paths.find? tree.hasFile) : Id (Option Text)) := by
  induction paths with
  | nil => rfl
  | cons path paths ih =>
    rw [SourceTree.firstFile?, List.find?_cons, ih]
    show (if tree.hasFile path then _ else _) = _
    cases tree.hasFile path
    · rfl
    · rfl

/-- Locating a target is looking for a file. -/
theorem toSourceTree_locate? (tree : MemoryTree) (current target : Text) :
    tree.toSourceTree.locate? current target = (pure (tree.locate? current target) : Id _) :=
  tree.firstFile?_eq _

/-- A located file is there. -/
theorem find?_of_locate? {current target : Text}
    (located : tree.locate? current target = some path) :
    ∃ content, tree.find? path = some content := by
  have there : tree.hasFile path = true := List.find?_some located
  exact Option.isSome_iff_exists.1 there

/-- A file that is there is read. -/
theorem toSourceTree_read {content : Text} (found : tree.find? path = some content) :
    tree.toSourceTree.read path = pure content := read_eq_ok_iff.2 found

end Location

section Inlining

/-- If every replacement succeeds, so does replacing places. -/
theorem replaceFrom_total {α : Type} {replacement : α → ExceptT ReadFailure Id Text}
    (total : ∀ value, ∃ text, replacement value = pure text) (pending : Text)
    (places : List (Found α)) :
    ∃ text, SourceTree.replaceFrom replacement pending places = pure text := by
  induction places generalizing pending with
  | nil => exact ⟨pending, rfl⟩
  | cons found places ih =>
    obtain ⟨inserted, replaced⟩ := total found.value
    obtain ⟨rest, later⟩ := ih found.rest
    exact ⟨_, by rw [SourceTree.replaceFrom, replaced, pure_bind, later, pure_bind]⟩

/-- A document that includes nothing stays as it is. -/
theorem inlineFiles_of_plain {content : Text} (plain : uncommented inclusion content = [])
    (tree : MemoryTree) (depth : Nat) (current : Text) :
    tree.toSourceTree.inlineFiles depth current content = pure content := by
  cases depth with
  | zero => rfl
  | succ depth => rw [SourceTree.inlineFiles, plain, SourceTree.replaceFrom]

/-- Inlining files never fails. -/
theorem inlineFiles_total (tree : MemoryTree) (depth : Nat) (current content : Text) :
    ∃ text, tree.toSourceTree.inlineFiles depth current content = pure text := by
  induction depth generalizing current content with
  | zero => exact ⟨content, rfl⟩
  | succ depth ih =>
    refine replaceFrom_total (fun inner => ?_) content _
    rw [toSourceTree_locate?, liftM_pure, pure_bind]
    cases located : tree.locate? current inner.trim with
    | none => exact ⟨_, rfl⟩
    | some path =>
      obtain ⟨included, found⟩ := find?_of_locate? located
      obtain ⟨processed, inlined⟩ := ih path included
      refine ⟨processed ++ ['\n'], ?_⟩
      dsimp only
      rw [toSourceTree_read found, pure_bind, inlined, pure_bind]

end Inlining

section Packages

/-- The local packages that a text names, in order: those of its package files that there are. -/
def named (tree : MemoryTree) (current content : Text) : List Text :=
  (SourceTree.packageFiles content).filterMap (tree.locate? current)

/-- What is gathered down to a depth for the packages at some paths, given the paths that are taken
care of. -/
inductive Gathers (tree : MemoryTree) :
    Nat → List Text → List Text → SourceTree.Packages → Prop where
  /-- At the end of the depth nothing is gathered. -/
  | stop {seen paths : List Text} : Gathers tree 0 seen paths ⟨seen, []⟩
  /-- There is no further package. -/
  | done {depth : Nat} {seen : List Text} : Gathers tree (depth + 1) seen [] ⟨seen, []⟩
  /-- The first package is taken care of. -/
  | again {depth : Nat} {seen paths : List Text} {path : Text} {result : SourceTree.Packages}
      (known : path ∈ seen) (others : Gathers tree (depth + 1) seen paths result) :
      Gathers tree (depth + 1) seen (path :: paths) result
  /-- The first package is prepended behind those that its source names. -/
  | load {depth : Nat} {seen paths : List Text} {path source : Text}
      {inner rest : SourceTree.Packages} (fresh : path ∉ seen)
      (found : tree.find? path = some source)
      (before : Gathers tree depth (path :: seen) (tree.named path source) inner)
      (others : Gathers tree (depth + 1) inner.seen paths rest) :
      Gathers tree (depth + 1) seen (path :: paths)
        ⟨rest.seen, inner.loaded ++ ⟨path, source⟩ :: rest.loaded⟩

/-- Gathering packages never fails, and is a derivation. -/
theorem collectPackages_gathers (tree : MemoryTree) (depth : Nat) (current content : Text)
    (seen : List Text) :
    ∃ result, tree.toSourceTree.collectPackages depth current content seen = pure result ∧
      tree.Gathers depth seen (tree.named current content) result := by
  induction depth generalizing current content seen with
  | zero => exact ⟨⟨seen, []⟩, rfl, .stop⟩
  | succ depth ih =>
    rw [SourceTree.collectPackages, named]
    induction SourceTree.packageFiles content generalizing seen with
    | nil => exact ⟨⟨seen, []⟩, rfl, .done⟩
    | cons file files next =>
      rw [SourceTree.gather, toSourceTree_locate?, liftM_pure, pure_bind, List.filterMap_cons]
      cases located : tree.locate? current file with
      | none => exact next seen
      | some path =>
        by_cases known : path ∈ seen
        · obtain ⟨result, gathered, others⟩ := next seen
          refine ⟨result, ?_, .again known others⟩
          rw [← gathered]
          exact if_pos (List.contains_iff_mem.2 known)
        · obtain ⟨source, found⟩ := find?_of_locate? located
          obtain ⟨inner, collected, before⟩ := ih path source (path :: seen)
          obtain ⟨rest, gathered, others⟩ := next inner.seen
          refine ⟨_, ?_, .load known found before others⟩
          dsimp only
          rw [if_neg fun contained => known (List.contains_iff_mem.1 contained),
            toSourceTree_read found, pure_bind, collected, pure_bind, gathered, pure_bind]

end Packages

/-- The files are a consistent map, and inlining over them never fails: a file is there exactly if
it can be read; adding a file changes what is read at its normalized path, and at the one that its
extension completes if nothing is stored there; and every document is inlined, with any number of
levels, from any file, whatever is missing or includes itself. -/
theorem store_consistent (tree : MemoryTree) :
    (∀ path, tree.hasFile path = true ↔ ∃ content, tree.read path = .ok content) ∧
    (∀ path content query, (tree.add path content).read query =
      if Path.normalize query = Path.normalize path ∨
          Path.normalize query ∉ tree.files.keys ∧
            Path.normalize query ++ sourceExtension = Path.normalize path
      then .ok content else tree.read query) ∧
    (∀ depth current content, ∃ text : Text,
      (tree.toSourceTree.inlineImports depth current content).run = Except.ok text) := by
  refine ⟨fun path => hasFile_iff, tree.read_add, fun depth current content => ?_⟩
  obtain ⟨body, inlined⟩ := tree.inlineFiles_total depth current content
  obtain ⟨packages, collected, -⟩ := tree.collectPackages_gathers depth current body []
  refine ⟨SourceTree.preamble packages.loaded ++ body, ?_⟩
  rw [SourceTree.inlineImports, inlined, pure_bind, collected, pure_bind]
  rfl

end MemoryTree
end TexStatements
