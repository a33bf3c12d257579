import TexStatements.Source.Disk

/-!
# Volumes

A volume is a disk held in memory: directories, files and a few devices below one root, and a
current directory, from which paths start that do not start at the root. Paths are followed
component by component, so that a missing directory, a file used as a directory, a directory used
as a file and a name of more bytes than a name may have fail each in its own way.
-/
namespace TexStatements

/-- A device: it can be read and written, but holds nothing. -/
inductive Device where
  /-- What is written to it is lost. -/
  | null
  /-- Nothing can be written to it. -/
  | full
  /-- The standard input. -/
  | input
  /-- The standard output. -/
  | output
  /-- The standard error. -/
  | errors
deriving DecidableEq

namespace Device

/-- The directory of the devices. -/
def directory : Text := "dev".toList

/-- The path of a device from the root. -/
def path : Device → Text
  | null => directory ++ "/null".toList
  | full => directory ++ "/full".toList
  | input => directory ++ "/stdin".toList
  | output => directory ++ "/stdout".toList
  | errors => directory ++ "/stderr".toList

/-- All devices. -/
def all : List Device := [null, full, input, output, errors]

/-- The device at a path from the root. -/
def ofPath? (path : Text) : Option Device := all.find? fun device => device.path == path

end Device

/-- Directories and files below one root, by their paths from there without points. -/
structure Volume where
  /-- The directory that relative paths start from. -/
  current : Text := "work".toList
  /-- The directories other than the root. -/
  directories : List Text := [current, Device.directory]
  /-- The contents of the files. -/
  files : NameMap (List UInt8) := .empty

namespace Volume

/-- What a path leads to. -/
inductive Place where
  /-- A directory. -/
  | directory (path : Text)
  /-- A file. -/
  | file (path : Text)
  /-- A device. -/
  | device (device : Device)
  /-- Nothing, for a reason. -/
  | nowhere (error : DiskError)

/-- Number of bytes that a name may have. -/
def maxNameBytes : Nat := 255

/-- Number of bytes that a path may have. -/
def maxPathBytes : Nat := 4095

/-- The path of a name in a directory. -/
def child (directory name : Text) : Text :=
  if directory.isEmpty then name else directory ++ '/' :: name

/-- The path of the directory around a directory; the root lies in itself. -/
def outer (directory : Text) : Text :=
  Text.join ['/'] ((Text.fields (· == '/') directory).dropLast)

/-- Whether there is a directory at a path from the root. -/
def hasDirectory (volume : Volume) (path : Text) : Bool :=
  path.isEmpty || volume.directories.contains path

/-- Follow components from a directory. -/
def follow (volume : Volume) (directory : Text) : List Text → Place
  | [] => .directory directory
  | component :: more =>
    if Path.isTrivial component then volume.follow directory more
    else if component == ['.', '.'] then volume.follow (outer directory) more
    else if maxNameBytes < component.byteLength then .nowhere .nameTooLong
    else
      let path := child directory component
      let found (place : Place) : Place := if more.isEmpty then place else .nowhere .notDirectory
      if volume.hasDirectory path then volume.follow path more
      else if volume.files.contains path then found (.file path)
      else match Device.ofPath? path with
        | some device => found (.device device)
        | none => .nowhere .notFound

/-- The directory that a path starts from, and its components. -/
def start (volume : Volume) : Text → Text × List Text
  | '/' :: path => ([], Text.fields (· == '/') path)
  | path => (volume.current, Text.fields (· == '/') path)

/-- Why a path cannot be followed wherever it leads, if it cannot. -/
def refusal? (path : Text) : Option DiskError :=
  if path.isEmpty then some .notFound
  else if maxPathBytes < path.byteLength then some .nameTooLong
  else none

/-- Follow a path. -/
def find (volume : Volume) (path : Text) : Place :=
  match refusal? path with
  | some error => .nowhere error
  | none =>
    let (directory, components) := volume.start path
    volume.follow directory components

/-- The components of a path before the last one, and that one unless there is none. Slashes that
end the path do not count. -/
def splitLast (components : List Text) : List Text × Option Text :=
  match components.reverse.dropWhile List.isEmpty with
  | [] => ([], none)
  | last :: outer => (outer.reverse, some last)

/-- The directory that a path leads to but for its last component, and the name that this gives
there. Points and the root are no names. -/
def target (volume : Volume) (path : Text) : Except DiskError (Text × Option Text) :=
  match refusal? path with
  | some error => .error error
  | none =>
    let (directory, components) := volume.start path
    let (outer, last?) := splitLast components
    match volume.follow directory outer with
    | .directory around =>
      .ok (around, last?.filter fun name => !Path.isTrivial name && name != ['.', '.'])
    | .file _ => .error .notDirectory
    | .device _ => .error .notDirectory
    | .nowhere error => .error error

/-- Add a directory. -/
def addDirectory (volume : Volume) (path : Text) : Volume :=
  if volume.hasDirectory path then volume
  else { volume with directories := volume.directories ++ [path] }

/-- Make a directory in one that is there. -/
def makeDirectory (volume : Volume) (path : Text) : Except DiskError Volume :=
  match volume.target path with
  | .error error => .error error
  | .ok (_, none) => .error .alreadyExists
  | .ok (directory, some name) =>
    match volume.follow directory [name] with
    | .nowhere error =>
      if error = .notFound then .ok (volume.addDirectory (child directory name))
      else .error error
    | _ => .error .alreadyExists

/-- Read a file. -/
def read (volume : Volume) (path : Text) : Except DiskError (List UInt8) :=
  match volume.find path with
  | .file path => .ok ((volume.files.find? path).getD [])
  | .device _ => .ok []
  | .directory _ => .error .isDirectory
  | .nowhere error => .error error

/-- Write a file. A path that ends in a slash can only be that of a directory. -/
def write (volume : Volume) (path : Text) (content : List UInt8) :
    Except DiskError Volume :=
  match volume.target path with
  | .error error => .error error
  | .ok (_, none) => .error .isDirectory
  | .ok (directory, some name) =>
    let written : Volume :=
      { volume with files := volume.files.insert (child directory name) content }
    if path.getLast? = some '/' then .error .isDirectory
    else match volume.follow directory [name] with
      | .file _ => .ok written
      | .device .full => .error .noSpace
      | .device _ => .ok volume
      | .directory _ => .error .isDirectory
      | .nowhere error => if error = .notFound then .ok written else .error error

/-- The name that a path has directly in a directory, if it lies there. -/
def nameIn? (directory path : Text) : Option Text := do
  let below ← if directory.isEmpty then some path else
    Text.dropLiteral? (directory ++ ['/']) path
  if below.contains "/".toList then none else some below

/-- The names of what is directly in a directory. -/
def entries (volume : Volume) (path : Text) : Except DiskError (List Text) :=
  match volume.find path with
  | .directory key => .ok ((volume.directories ++ volume.files.keys).filterMap (nameIn? key))
  | .file _ => .error .notDirectory
  | .device _ => .error .notDirectory
  | .nowhere error => .error error

/-- The relative paths of all files below a directory. A file is below itself. -/
def filesBelow (volume : Volume) (path : Text) : List Text :=
  match volume.find path with
  | .directory key =>
    if key.isEmpty then volume.files.keys
    else volume.files.keys.filterMap (Text.dropLiteral? (key ++ ['/']))
  | .file _ => [[]]
  | _ => []

/-- Add the directories that components name, one inside the other. -/
def addAlong (volume : Volume) (directory : Text) : List Text → Volume
  | [] => volume
  | component :: more =>
    if Path.isTrivial component then volume.addAlong directory more
    else if component == ['.', '.'] then volume.addAlong (outer directory) more
    else
      let path := child directory component
      (volume.addDirectory path).addAlong path more

/-- Add a file with the directories that it lies in; a path that ends in a slash makes a directory
only. -/
def place (volume : Volume) (path : Text) (content : List UInt8) : Volume :=
  let (directory, components) := volume.start path
  let made := volume.addAlong directory components.dropLast
  match made.write path content with
  | .ok written => written
  | .error _ => made

/-- The disk that a volume is, as part of a state. -/
def disk {σ : Type} (get : σ → Volume) (set : σ → Volume → σ) : Disk (StateM σ) :=
  let update (change : Volume → Except DiskError Volume) : StateM σ (Except DiskError Unit) :=
    fun state =>
      match change (get state) with
      | .ok volume => (.ok (), set state volume)
      | .error error => (.error error, state)
  { isFile := fun path state => (match (get state).find path with
      | .file _ => true
      | _ => false, state)
    isDirectory := fun path state => (match (get state).find path with
      | .directory _ => true
      | _ => false, state)
    readFile := fun path state => ((get state).read path, state)
    writeFile := fun path content => update fun volume =>
      volume.write path (Utf8.encode content)
    makeDirectory := fun path => update fun volume => volume.makeDirectory path
    entries := fun path state => ((get state).entries path, state)
    filesBelow := fun path state => ((get state).filesBelow path, state) }

end Volume
end TexStatements
