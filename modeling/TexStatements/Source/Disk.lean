import TexStatements.Source.Decode
import TexStatements.Source.Tree

/-!
# Source trees on a disk

A disk is reached by a few operations that may fail with an error of the operating system. A source
tree on a disk has a base directory, below which its document files are found, and directories that
are searched for a file before its path is tried as it stands. A path may lack its extension.
-/
namespace TexStatements

/-- An error of the operating system. -/
structure DiskError where
  /-- Its number. -/
  code : Nat
  /-- What it says. -/
  description : Text
deriving DecidableEq

namespace DiskError

/-- The wording of an error, with its number. -/
def message (error : DiskError) : Text :=
  error.description ++ " (os error ".toList ++ numeral error.code ++ [')']

/-- There is nothing at a path. -/
def notFound : DiskError := ⟨2, "No such file or directory".toList⟩

/-- There is something at a path already. -/
def alreadyExists : DiskError := ⟨17, "File exists".toList⟩

/-- A path leads through a file. -/
def notDirectory : DiskError := ⟨20, "Not a directory".toList⟩

/-- A directory is used as a file. -/
def isDirectory : DiskError := ⟨21, "Is a directory".toList⟩

/-- A device has no room for what is written to it. -/
def noSpace : DiskError := ⟨28, "No space left on device".toList⟩

/-- A name in a path, or the path, is longer than the disk allows. -/
def nameTooLong : DiskError := ⟨36, "File name too long".toList⟩

/-- The failure of an extraction that an error causes. -/
def toFailure (error : DiskError) : Failure := .io error.message

end DiskError

/-- Access to a disk. -/
structure Disk (m : Type → Type) where
  /-- Whether there is a file at a path. -/
  isFile : Text → m Bool
  /-- Whether there is a directory at a path. -/
  isDirectory : Text → m Bool
  /-- Read a file. -/
  readFile : Text → m (Except DiskError (List UInt8))
  /-- Write a file in place of an earlier one. -/
  writeFile : Text → Text → m (Except DiskError Unit)
  /-- Make a directory in one that is there. -/
  makeDirectory : Text → m (Except DiskError Unit)
  /-- The names of what is directly in a directory. -/
  entries : Text → m (Except DiskError (List Text))
  /-- The relative paths of all files below a directory. A file is below itself. -/
  filesBelow : Text → m (List Text)

namespace Disk

variable {m : Type → Type} [Monad m]

/-- Make a directory, unless there is one already. -/
def ensureDirectory (disk : Disk m) (path : Text) : m (Except DiskError Unit) := do
  match ← disk.makeDirectory path with
  | .ok _ => pure (.ok ())
  | .error error => do
    if ← disk.isDirectory path then pure (.ok ()) else pure (.error error)

/-- Make a directory, and before it those that it lies in when they are missing, going at most a
number of levels up. -/
def makeWithin (disk : Disk m) : Nat → Text → m (Except DiskError Unit)
  | 0, path => disk.ensureDirectory path
  | levels + 1, path => do
    if path.isEmpty then pure (.ok ())
    else
      let made ← disk.ensureDirectory path
      match made, Path.parent? path with
      | .error error, some parent => do
        if error = .notFound then
          match ← disk.makeWithin levels parent with
          | .ok _ => disk.ensureDirectory path
          | .error outer => pure (.error outer)
        else pure made
      | _, _ => pure made

/-- Make a directory with those that it lies in. Each of these has a shorter path, so that there
are no more levels than characters. -/
def makeDirectories (disk : Disk m) (path : Text) : m (Except DiskError Unit) :=
  disk.makeWithin (path.length + 1) path

end Disk

/-- Where a source tree lies on a disk. -/
structure DiskTree where
  /-- The directory that holds the document files. -/
  base? : Option Text := none
  /-- The directories that are searched for files, in order. -/
  searchPaths : List Text := []

namespace DiskTree

variable {m : Type → Type} [Monad m]

/-- The tree below a directory, which is also searched for files. -/
def below (base : Text) : DiskTree := ⟨some base, [base]⟩

/-- A tree with one more directory to be searched. -/
def addSearchPath (tree : DiskTree) (path : Text) : DiskTree :=
  { tree with searchPaths := tree.searchPaths ++ [path] }

/-- The paths at which a file may lie, in the order in which they are tried. -/
def places (tree : DiskTree) (path : Text) : List Text :=
  let extended := path ++ sourceExtension
  (tree.searchPaths.flatMap fun directory =>
    [Path.join directory path, Path.join directory extended]) ++ [path, extended]

/-- The first of some paths at which there is a file. -/
def firstFile? (disk : Disk m) : List Text → m (Option Text)
  | [] => pure none
  | path :: more => do
    if ← disk.isFile path then pure (some path) else firstFile? disk more

/-- The place of a file on the disk. -/
def findFile? (tree : DiskTree) (disk : Disk m) (path : Text) : m (Option Text) :=
  firstFile? disk (tree.places path)

/-- The content of a file that was read, decoded. -/
def decodeRead : Except DiskError (List UInt8) → Except ReadFailure Text
  | .error error => .error (.unreadable error.message)
  | .ok bytes =>
    match decodeSource bytes with
    | .ok content => .ok content
    | .error failure => .error (.unreadable failure.toFailure.message)

/-- Read a file. -/
def read (tree : DiskTree) (disk : Disk m) (path : Text) : m (Except ReadFailure Text) := do
  match ← tree.findFile? disk path with
  | none => pure (.error (.notFound path))
  | some place => decodeRead <$> disk.readFile place

/-- Resolve a relative path against the directory of a base path. -/
def resolve (base relative : Text) : Text :=
  match Path.parent? base with
  | some directory => Path.normalize (Path.join directory relative)
  | none => Path.normalize relative

/-- The paths of all document files below the base directory, in increasing order. -/
def documentFiles (tree : DiskTree) (disk : Disk m) : m (List Text) := do
  match tree.base? with
  | none => pure []
  | some base =>
    let below ← disk.filesBelow base
    pure (Text.sort ((below.filter fun path =>
      Path.extension? (Path.join base path) == some "tex".toList).map Path.normalize))

/-- The source tree of files on a disk. -/
def toSourceTree (tree : DiskTree) (disk : Disk m) : SourceTree m where
  read path := ExceptT.mk (tree.read disk path)
  hasFile path := Option.isSome <$> tree.findFile? disk path
  resolve := resolve
  documentFiles := tree.documentFiles disk

end DiskTree
end TexStatements
