import TexStatements.Command.Run

/-!
# Reading changes nothing

Documents are read through the operations of a disk that only look at it. Where these leave the
state as it is, so does everything that is put together from them: finding files, inlining them,
choosing a main file, and extracting a paper (`Host.ReadsOnly.extractPaper`).
-/
namespace TexStatements

/-- One action after another goes on with the answer and the state of the first. -/
theorem run_bind {σ α β : Type} (action : StateM σ α) (next : α → StateM σ β) (state : σ) :
    (action >>= next).run state = (next (action.run state).1).run (action.run state).2 := rfl

/-- An action leaves every state as it is. -/
def LeavesState {σ α : Type} (action : StateM σ α) : Prop :=
  ∀ state, (action.run state).2 = state

namespace LeavesState

variable {σ ε α β : Type}

/-- Answering without an action leaves the state. -/
theorem pure (value : α) : LeavesState (Pure.pure value : StateM σ α) := fun _ => rfl

/-- One action after another leaves the state if both do. -/
theorem bind {action : StateM σ α} {next : α → StateM σ β} (first : LeavesState action)
    (second : ∀ value, LeavesState (next value)) : LeavesState (action >>= next) := by
  intro state
  rw [run_bind, second, first]

/-- What is made of an answer does not matter to the state. -/
theorem map {action : StateM σ α} (change : α → β) (leaves : LeavesState action) :
    LeavesState (change <$> action) := leaves

/-- One action after another leaves the state if both do, also where the first one may fail. -/
theorem bindExcept {action : ExceptT ε (StateM σ) α} {next : α → ExceptT ε (StateM σ) β}
    (first : LeavesState action.run) (second : ∀ value, LeavesState (next value).run) :
    LeavesState (action >>= next).run := by
  rw [ExceptT.run_bind]
  refine first.bind fun outcome => ?_
  cases outcome with
  | ok value => exact second value
  | error failure => exact .pure (Except.error failure)

/-- Wording a failure in another way does not matter to the state. -/
theorem adapt {δ : Type} {action : ExceptT ε (StateM σ) α} (change : ε → δ)
    (leaves : LeavesState action.run) : LeavesState (ExceptT.adapt change action).run :=
  leaves.map (Except.mapError change)

/-- Failing for want of a value leaves the state. -/
theorem getDM (value? : Option α) (failure : ε) :
    LeavesState (value?.getDM (throw failure : ExceptT ε (StateM σ) α)).run := by
  cases value? with
  | none => exact .pure (Except.error failure)
  | some value => exact .pure (Except.ok value)

end LeavesState

/-- Files are read and found without a change of the state. -/
structure SourceTree.ReadsOnly {σ : Type} (tree : SourceTree (StateM σ)) : Prop where
  /-- Reading a file leaves the state. -/
  read : ∀ path, LeavesState (tree.read path).run
  /-- Looking for a file leaves the state. -/
  hasFile : ∀ path, LeavesState (tree.hasFile path)
  /-- Listing the document files leaves the state. -/
  documentFiles : LeavesState tree.documentFiles

namespace SourceTree.ReadsOnly

variable {σ : Type} {tree : SourceTree (StateM σ)}

/-- Looking for the first file leaves the state. -/
theorem firstFile? (reads : tree.ReadsOnly) (paths : List Text) :
    LeavesState (tree.firstFile? paths) := by
  induction paths with
  | nil => exact .pure none
  | cons path paths ih =>
    refine (reads.hasFile path).bind fun there => ?_
    cases there with
    | true => exact .pure (some path)
    | false => exact ih

/-- Looking for the file that a target names leaves the state. -/
theorem locate? (reads : tree.ReadsOnly) (current target : Text) :
    LeavesState (tree.locate? current target) := reads.firstFile? _

/-- Replacing places of a text leaves the state if what is put in their place does. -/
theorem replaceFrom {α : Type} {replacement : α → ExceptT ReadFailure (StateM σ) Text}
    (leaves : ∀ value, LeavesState (replacement value).run) (pending : Text)
    (places : List (Found α)) :
    LeavesState (SourceTree.replaceFrom replacement pending places).run := by
  induction places generalizing pending with
  | nil => exact .pure (Except.ok pending)
  | cons found places ih =>
    refine (leaves found.value).bindExcept fun inserted => ?_
    exact (ih found.rest).bindExcept fun rest => .pure (Except.ok _)

/-- Inlining files leaves the state. -/
theorem inlineFiles (reads : tree.ReadsOnly) (depth : Nat) (current content : Text) :
    LeavesState (tree.inlineFiles depth current content).run := by
  induction depth generalizing current content with
  | zero => exact .pure (Except.ok content)
  | succ depth ih =>
    refine replaceFrom (fun inner => ?_) _ _
    have located : LeavesState
        (liftM (tree.locate? current inner.trim) : ExceptT ReadFailure (StateM σ) _).run :=
      (reads.locate? current inner.trim).map Except.ok
    refine located.bindExcept fun path? => ?_
    cases path? with
    | none => exact .pure (Except.ok _)
    | some path =>
      refine (reads.read path).bindExcept fun included => ?_
      exact (ih path included).bindExcept fun processed => .pure (Except.ok _)

/-- Gathering packages leaves the state if gathering those of a package does. -/
theorem gather (reads : tree.ReadsOnly)
    {further : Text → Text → List Text → ExceptT ReadFailure (StateM σ) Packages}
    (leaves : ∀ path source seen, LeavesState (further path source seen).run)
    (current : Text) (seen files : List Text) :
    LeavesState (tree.gather further current seen files).run := by
  induction files generalizing seen with
  | nil => exact .pure (Except.ok _)
  | cons file files ih =>
    have located : LeavesState
        (liftM (tree.locate? current file) : ExceptT ReadFailure (StateM σ) _).run :=
      (reads.locate? current file).map Except.ok
    refine located.bindExcept fun path? => ?_
    cases path? with
    | none => exact ih seen
    | some path =>
      dsimp only
      split
      · exact ih seen
      · refine (reads.read path).bindExcept fun source => ?_
        refine (leaves path source (path :: seen)).bindExcept fun inner => ?_
        exact (ih inner.seen).bindExcept fun rest => .pure (Except.ok _)

/-- Gathering all packages leaves the state. -/
theorem collectPackages (reads : tree.ReadsOnly) (depth : Nat) (current content : Text)
    (seen : List Text) : LeavesState (tree.collectPackages depth current content seen).run := by
  induction depth generalizing current content seen with
  | zero => exact .pure (Except.ok _)
  | succ depth ih => exact reads.gather ih current seen (packageFiles content)

/-- Bringing a document into one text leaves the state. -/
theorem inlineImports (reads : tree.ReadsOnly) (depth : Nat) (current content : Text) :
    LeavesState (tree.inlineImports depth current content).run := by
  refine (reads.inlineFiles depth current content).bindExcept fun body => ?_
  exact (reads.collectPackages depth current body []).bindExcept fun packages =>
    .pure (Except.ok _)

/-- Reading the document files leaves the state. -/
theorem candidates (reads : tree.ReadsOnly) (paths : List Text) :
    LeavesState (tree.candidates paths) := by
  induction paths with
  | nil => exact .pure []
  | cons path paths ih =>
    refine (reads.read path).bind fun content => ih.bind fun rest => ?_
    cases content with
    | ok content => exact .pure _
    | error failure => exact .pure rest

/-- Choosing the main file leaves the state. -/
theorem mainFile? (reads : tree.ReadsOnly) : LeavesState tree.mainFile? :=
  reads.documentFiles.bind fun paths => (reads.candidates paths).bind fun _ => .pure _

end SourceTree.ReadsOnly

/-- The disk is looked at without a change of the state. -/
structure Disk.ReadsOnly {σ : Type} (disk : Disk (StateM σ)) : Prop where
  /-- Looking for a file leaves the state. -/
  isFile : ∀ path, LeavesState (disk.isFile path)
  /-- Looking for a directory leaves the state. -/
  isDirectory : ∀ path, LeavesState (disk.isDirectory path)
  /-- Reading a file leaves the state. -/
  readFile : ∀ path, LeavesState (disk.readFile path)
  /-- Listing the files below a directory leaves the state. -/
  filesBelow : ∀ path, LeavesState (disk.filesBelow path)

namespace Disk.ReadsOnly

variable {σ : Type} {disk : Disk (StateM σ)}

/-- Looking for the place of a file leaves the state. -/
theorem findFile? (reads : disk.ReadsOnly) (tree : DiskTree) (path : Text) :
    LeavesState (tree.findFile? disk path) := by
  rw [DiskTree.findFile?]
  induction tree.places path with
  | nil => exact .pure none
  | cons place places ih =>
    refine (reads.isFile place).bind fun there => ?_
    cases there with
    | true => exact .pure (some place)
    | false => exact ih

/-- A source tree on a disk is read as the disk is. -/
theorem toSourceTree (reads : disk.ReadsOnly) (tree : DiskTree) :
    (tree.toSourceTree disk).ReadsOnly where
  read path := by
    refine (reads.findFile? tree path).bind fun place? => ?_
    cases place? with
    | none => exact .pure _
    | some place => exact (reads.readFile place).map DiskTree.decodeRead
  hasFile path := (reads.findFile? tree path).map Option.isSome
  documentFiles := by
    show LeavesState (tree.documentFiles disk)
    rw [DiskTree.documentFiles]
    cases tree.base? with
    | none => exact .pure []
    | some base => exact (reads.filesBelow base).bind fun below => .pure _

end Disk.ReadsOnly

/-- Papers are read without a change of the state. -/
structure Host.ReadsOnly {σ : Type} (host : Host (StateM σ)) : Prop where
  /-- The disk is looked at without a change of the state. -/
  disk : host.disk.ReadsOnly
  /-- What leaves the state does so within a number of seconds. -/
  within : ∀ {α : Type} (seconds : Nat) {action : StateM σ α}, LeavesState action →
    LeavesState (host.within seconds action)

namespace Host.ReadsOnly

variable {σ : Type} {host : Host (StateM σ)}

/-- Reading a document below a directory leaves the state. -/
theorem inlineBelow (reads : host.ReadsOnly) (directory name content : Text) :
    LeavesState (host.inlineBelow directory name content).run :=
  ((reads.disk.toSourceTree _).inlineImports _ _ _).adapt _

/-- Reading the document in one file leaves the state. -/
theorem readFile (reads : host.ReadsOnly) (path : Text) :
    LeavesState (host.readFile path).run := by
  have read : LeavesState
      (ExceptT.adapt DiskError.toFailure (ExceptT.mk (host.disk.readFile path))).run :=
    LeavesState.adapt _ (reads.disk.readFile path)
  refine read.bindExcept fun bytes => ?_
  have decoded : LeavesState (ExceptT.adapt DecodeFailure.toFailure
      (ExceptT.mk (pure (decodeSource bytes) : StateM σ _))).run :=
    LeavesState.adapt _ (.pure _)
  exact decoded.bindExcept fun content => reads.inlineBelow _ _ _

/-- Reading the document in a directory leaves the state. -/
theorem readDirectory (reads : host.ReadsOnly) (path : Text) :
    LeavesState (host.readDirectory path).run := by
  have tree := reads.disk.toSourceTree (DiskTree.below path)
  have chosen : LeavesState (liftM ((DiskTree.below path).toSourceTree host.disk).mainFile? :
      ExceptT Failure (StateM σ) _).run := tree.mainFile?.map Except.ok
  refine chosen.bindExcept fun main? => ?_
  cases main? with
  | none => exact .pure _
  | some main =>
    exact ((tree.read main).adapt _).bindExcept fun content => reads.inlineBelow _ _ _

/-- Reading a paper leaves the state. -/
theorem readPaper (reads : host.ReadsOnly) (path : Text) :
    LeavesState (host.readPaper path).run := by
  have looked : LeavesState
      (liftM (host.disk.isDirectory path) : ExceptT Failure (StateM σ) _).run :=
    (reads.disk.isDirectory path).map Except.ok
  refine looked.bindExcept fun isDirectory => ?_
  cases isDirectory with
  | true => exact reads.readDirectory path
  | false => exact reads.readFile path

/-- Extracting a paper leaves the state. -/
theorem extractPaper (reads : host.ReadsOnly) (path : Text) (options : Options)
    (timeout : Nat) : LeavesState (host.extractPaper path options timeout).run := by
  have work := (reads.readPaper path).bindExcept fun source =>
    .getDM (TexStatements.extract? source options) endlessExpansion
  have limited : LeavesState (liftM (host.within timeout _) : ExceptT Failure (StateM σ) _).run :=
    (reads.within timeout work).map Except.ok
  refine limited.bindExcept fun outcome? => ?_
  cases outcome? with
  | none => exact .pure _
  | some outcome => exact .pure outcome

end Host.ReadsOnly

end TexStatements
