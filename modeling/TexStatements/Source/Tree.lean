import TexStatements.Failure
import TexStatements.NameMap
import TexStatements.Source.Path

/-!
# Source trees

A document ships as a tree of files. A source tree says how files are found and read and how a
path inside one file is resolved. Its operations run in a monad, so that the same procedures work
on files held in memory and on those of a disk.
-/
namespace TexStatements

/-- Access to the files of a document. -/
structure SourceTree (m : Type → Type) where
  /-- Read a file. -/
  read : Text → ExceptT ReadFailure m Text
  /-- Whether a file is there. -/
  hasFile : Text → m Bool
  /-- The path that a relative path stands for in the file at a base path. -/
  resolve : Text → Text → Text
  /-- The paths of all document files, in increasing order. -/
  documentFiles : m (List Text)

namespace SourceTree

variable {m : Type → Type} [Monad m]

/-- The first of some paths at which there is a file. -/
def firstFile? (tree : SourceTree m) : List Text → m (Option Text)
  | [] => pure none
  | path :: more => do
    if ← tree.hasFile path then pure (some path) else tree.firstFile? more

/-- The file that a target in the current file names: relative to that file, or else to the root
of the tree. -/
def locate? (tree : SourceTree m) (current target : Text) : m (Option Text) :=
  tree.firstFile? [tree.resolve current target, Path.normalize target]

end SourceTree

/-- Files held in memory, by their normalized paths. -/
structure MemoryTree where
  /-- The directory that paths are relative to, as information only. -/
  base? : Option Text := none
  /-- The contents of the files. -/
  files : NameMap Text := .empty

namespace MemoryTree

/-- Add a file in place of any earlier one at its path. -/
def add (tree : MemoryTree) (path content : Text) : MemoryTree :=
  { tree with files := tree.files.insert (Path.normalize path) content }

/-- The content of a file, whose path may lack its extension. -/
def find? (tree : MemoryTree) (path : Text) : Option Text :=
  let path := Path.normalize path
  (tree.files.find? path).or (tree.files.find? (path ++ sourceExtension))

/-- Whether a file is there; its path may lack its extension. -/
def hasFile (tree : MemoryTree) (path : Text) : Bool := (tree.find? path).isSome

/-- Read a file; its path may lack its extension. -/
def read (tree : MemoryTree) (path : Text) : Except ReadFailure Text :=
  match tree.find? path with
  | some content => .ok content
  | none => .error (.notFound (Path.normalize path))

/-- The part of a path before its last separator, if it has one. -/
def directory? (path : Text) : Option Text :=
  match path.reverse.dropWhile fun c => !Path.isSeparator c with
  | _ :: outer => some outer.reverse
  | [] => none

/-- Resolve a relative path against the directory of a base path. A path that starts with a
separator stands for itself. -/
def resolve (base relative : Text) : Text :=
  if relative.head?.any Path.isSeparator then Path.normalize relative
  else match directory? base with
    | some directory => Path.normalize (directory ++ '/' :: relative)
    | none => Path.normalize relative

/-- The paths of all document files, in increasing order. -/
def documentFiles (tree : MemoryTree) : List Text :=
  Text.sort (tree.files.keys.filter fun path => path.endsWith sourceExtension)

/-- The source tree of files in memory. -/
def toSourceTree (tree : MemoryTree) : SourceTree Id where
  read path := ExceptT.mk (tree.read path)
  hasFile path := tree.hasFile path
  resolve := resolve
  documentFiles := tree.documentFiles

end MemoryTree
end TexStatements
