import TexStatements.Command.Run

/-!
# The program

The host of a run on a real machine: its files, its standard streams and its clock. Everything that
is decided is decided in `Host.run`.
-/
namespace TexStatements
namespace Machine

/-- A text as a string of the machine. -/
def string (text : Text) : String := String.ofList text

/-- An error of the operating system as a run sees it. -/
def diskError : IO.Error → DiskError
  | .noFileOrDirectory _ _ _ => .notFound
  | .alreadyExists _ _ _ => .alreadyExists
  | .inappropriateType _ code details =>
    if code = 20 then .notDirectory
    else if code = 21 then .isDirectory
    else ⟨code.toNat, details.toList⟩
  | .permissionDenied _ _ _ => ⟨13, "Permission denied".toList⟩
  | .invalidArgument _ code details => ⟨code.toNat, details.toList⟩
  | .resourceExhausted _ code details => ⟨code.toNat, details.toList⟩
  | .noSuchThing _ code details => ⟨code.toNat, details.toList⟩
  | .otherError code details => ⟨code.toNat, details.toList⟩
  | other => ⟨5, (toString other).toList⟩

/-- Do something that may fail with an error of the operating system. -/
def attempt {α : Type} (action : IO α) : IO (Except DiskError α) := do
  match ← action.toBaseIO with
  | .ok value => pure (.ok value)
  | .error error => pure (.error (diskError error))

/-- The kind of what a path leads to, if it leads to anything. -/
def kindOf? (path : Text) : IO (Option IO.FS.FileType) := do
  if path.isEmpty then return none
  let place := (← IO.currentDir) / string path
  return (← attempt place.metadata).toOption.map (·.type)

/-- The names of what is directly in a directory. -/
def entries (path : Text) : IO (List Text) := do
  if path.isEmpty then throw (.noFileOrDirectory "" 2 "")
  let place := (← IO.currentDir) / string path
  return (← place.readDir).toList.map fun entry => entry.fileName.toList

/-- The relative paths of all files below a path, given the path so far. Links are not followed. -/
partial def filesBelow (root : Text) (relative : Text) : IO (List Text) := do
  if root.isEmpty then return []
  let path := if relative.isEmpty then root else Path.join root relative
  let place := (← IO.currentDir) / string path
  let kind := (← attempt place.symlinkMetadata).toOption.map (·.type)
  if kind == some .file then return [relative]
  if kind != some .dir && !relative.isEmpty then return []
  let names := ((← attempt (entries path)).toOption).getD []
  let below ← names.mapM fun name =>
    filesBelow root (if relative.isEmpty then name else Path.join relative name)
  return below.flatten

/-- All bytes that a stream still has, behind those that were read. -/
partial def readAll (stream : IO.FS.Stream) (bytes : ByteArray) : IO ByteArray := do
  let more ← stream.read 65536
  if more.isEmpty then return bytes
  readAll stream (bytes ++ more)

/-- Wait for a task until a point in time, in milliseconds. -/
partial def awaitUntil {α : Type} (task : Task (Except IO.Error α)) (deadline : Nat) :
    IO (Option α) := do
  if ← IO.hasFinished task then
    match task.get with
    | .ok value => return some value
    | .error error => throw error
  else if deadline ≤ (← IO.monoMsNow) then return none
  else
    IO.sleep 1
    awaitUntil task deadline

/-- The disk of the machine. -/
def disk : Disk IO where
  isFile path := return (← kindOf? path) == some .file
  isDirectory path := return (← kindOf? path) == some .dir
  readFile path := attempt do return (← IO.FS.readBinFile (string path)).toList
  writeFile path content := attempt (IO.FS.writeFile (string path) (string content))
  makeDirectory path := attempt (IO.FS.createDir (string path))
  entries path := attempt (entries path)
  filesBelow path := filesBelow path []

/-- The machine as the host of a run. -/
def host : Host IO where
  disk := disk
  input := return (← readAll (← IO.getStdin) ByteArray.empty).toList
  print text := do
    let stream ← IO.getStdout
    stream.putStr (string text)
    stream.flush
  report text := do (← IO.getStderr).putStr (string text)
  within seconds action := do
    let deadline := (← IO.monoMsNow) + 1000 * seconds
    awaitUntil (← IO.asTask action .dedicated) deadline

end Machine
end TexStatements

/-- Carry out the command line of the program. -/
def main (arguments : List String) : IO UInt32 := do
  let code ← TexStatements.Host.run TexStatements.Machine.host (arguments.map String.toList)
  return code.toUInt32
