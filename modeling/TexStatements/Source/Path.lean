import TexStatements.Text.Basic

/-!
# Paths

Inside a source tree a path is normalized: its components are collapsed, and both slashes separate
them. On a disk only the forward slash separates components. There a component that is empty or a
single point is passed over, except for a point at the very start, and a path keeps its spelling.
-/
namespace TexStatements
namespace Path

/-- Whether a character separates the components of a path in a source tree. -/
def isSeparator (c : Char) : Bool := c == '/' || c == '\\'

/-- Whether a component does not move. -/
def isTrivial (component : Text) : Bool := component.isEmpty || component == ['.']

/-- Take one component into account: a pair of points leaves the innermost directory. Components
are held innermost first. -/
def enter (entered : List Text) (component : Text) : List Text :=
  if isTrivial component then entered
  else if component == ['.', '.'] then entered.drop 1
  else component :: entered

/-- Collapse the components of a path. -/
def normalize (path : Text) : Text :=
  let joined := Text.join ['/'] ((path.fields isSeparator).foldl enter []).reverse
  if path.head? = some '/' then '/' :: joined else joined

/-- A path on a disk, divided into its components. -/
structure Parts where
  /-- The root, the point at the very start, or nothing. -/
  head : Text
  /-- The components behind it as they are written, the empty ones included. -/
  components : List Text

/-- Divide a path on a disk. -/
def parts (path : Text) : Parts :=
  match path with
  | '/' :: rest => ⟨['/'], Text.fields (· == '/') rest⟩
  | ['.'] => ⟨['.'], [[]]⟩
  | '.' :: '/' :: rest => ⟨['.'], [] :: Text.fields (· == '/') rest⟩
  | _ => ⟨[], path.fields (· == '/')⟩

/-- The components without those that do not move, last first. -/
def Parts.moves (parts : Parts) : List Text :=
  (parts.components.filter fun component => !isTrivial component).reverse

/-- The path of the directory that a path lies in; the root and the empty path lie in none. -/
def parent? (path : Text) : Option Text :=
  let divided := parts path
  match divided.components.reverse.dropWhile isTrivial with
  | _ :: outer =>
    some (divided.head ++ Text.join ['/'] (outer.dropWhile isTrivial).reverse)
  | [] => if divided.head = ['.'] then some [] else none

/-- The last component of a path, unless it is a pair of points. -/
def fileName? (path : Text) : Option Text :=
  match (parts path).moves with
  | name :: _ => if name = ['.', '.'] then none else some name
  | [] => none

/-- Put a relative path behind a directory; an absolute path replaces it. -/
def join (directory relative : Text) : Text :=
  if relative.head? = some '/' || directory.isEmpty then relative
  else if directory.getLast? = some '/' then directory ++ relative
  else directory ++ '/' :: relative

/-- A file name divided at its last point: the stem, and the extension if there is one. A point
at the start divides nothing. -/
def divideName (name : Text) : Text × Option Text :=
  let extension := (name.reverse.takeWhile (· != '.')).reverse
  match (name.reverse.dropWhile (· != '.')).reverse.dropLast with
  | [] => (name, none)
  | stem => (stem, some extension)

/-- The extension of a path, if its last component has one. -/
def extension? (path : Text) : Option Text := do (divideName (← fileName? path)).2

/-- The last component of a path without its extension. -/
def stem? (path : Text) : Option Text := (fileName? path).map fun name => (divideName name).1

end Path

/-- The extension of the files that documents are made of. -/
def sourceExtension : Text := ".tex".toList

/-- The extension of packages. -/
def packageExtension : Text := ".sty".toList

end TexStatements
