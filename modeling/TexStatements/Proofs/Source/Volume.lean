import TexStatements.Proofs.Source.FileName
import TexStatements.Source.Volume

/-!
# Files on a volume

A path is followed directory by directory, and its last component decides what it leads to. A file
that is written behind a directory is where its path leads to from then on (`write_eq_ok`), and a
file that is written elsewhere does not change what a path to a file leads to, nor what is read
there (`Stores.withFile`).
-/
namespace TexStatements
namespace Volume

variable {volume written : Volume} {path name directory around component file other : Text}
  {components first : List Text} {content : List UInt8}

/-- A volume with one more file, or with other content in it. -/
def withFile (volume : Volume) (file : Text) (content : List UInt8) : Volume :=
  { volume with files := volume.files.insert file content }

/-- A path leads to a file with a content. -/
structure Stores (volume : Volume) (path file : Text) (content : List UInt8) : Prop where
  /-- The path leads to the file. -/
  found : volume.find path = .file file
  /-- The file holds the content. -/
  holds : volume.files.find? file = some content

/-- A file is there once it is put in, and what was there is there still. -/
theorem contains_withFile (volume : Volume) (file other : Text) (content : List UInt8) :
    (volume.withFile file content).files.contains other =
      (file == other || volume.files.contains other) := by
  rw [withFile, NameMap.contains, NameMap.find?_insert]
  by_cases same : file = other
  · rw [if_pos same, beq_iff_eq.2 same]
    rfl
  · rw [if_neg same, beq_eq_false_iff_ne.2 same]
    rfl

section Steps

/-- The directory that a component leads to, if it leads to one. -/
def enter? (volume : Volume) (directory component : Text) : Option Text :=
  if Path.isTrivial component then some directory
  else if component == ['.', '.'] then some (outer directory)
  else if maxNameBytes < component.byteLength then none
  else if volume.hasDirectory (child directory component) then some (child directory component)
  else none

/-- What a component leads to if that is no directory. -/
def leaf (volume : Volume) (directory component : Text) : Place :=
  if maxNameBytes < component.byteLength then .nowhere .nameTooLong
  else if volume.files.contains (child directory component) then
    .file (child directory component)
  else match Device.ofPath? (child directory component) with
    | some device => .device device
    | none => .nowhere .notFound

/-- What a path leads to that goes on behind a place where there is no directory. -/
def Place.beyond : Place → Place
  | .file _ => .nowhere .notDirectory
  | .device _ => .nowhere .notDirectory
  | place => place

/-- Components are followed from the directory that the first one leads to. If there is none, they
end there. -/
theorem follow_cons (volume : Volume) (directory component : Text) (components : List Text) :
    volume.follow directory (component :: components) =
      match volume.enter? directory component with
      | some next => volume.follow next components
      | none =>
        if components.isEmpty then volume.leaf directory component
        else (volume.leaf directory component).beyond := by
  rw [follow, enter?, leaf]
  by_cases stays : Path.isTrivial component
  · rw [if_pos stays, if_pos stays]
  by_cases leaves : component == ['.', '.']
  · rw [if_neg stays, if_neg stays, if_pos leaves, if_pos leaves]
  rw [if_neg stays, if_neg stays, if_neg leaves, if_neg leaves]
  by_cases long : maxNameBytes < component.byteLength
  · rw [if_pos long, if_pos long, if_pos long]
    exact (ite_self _).symm
  rw [if_neg long, if_neg long, if_neg long]
  dsimp only
  by_cases there : volume.hasDirectory (child directory component)
  · rw [if_pos there, if_pos there]
  rw [if_neg there, if_neg there]
  by_cases isFile : volume.files.contains (child directory component)
  · rw [if_pos isFile, if_pos isFile]
    rfl
  · rw [if_neg isFile, if_neg isFile]
    cases Device.ofPath? (child directory component) with
    | some device => rfl
    | none => exact (ite_self _).symm

/-- What there is instead of a directory is none. -/
theorem leaf_ne_directory : volume.leaf directory component ≠ .directory around := by
  rw [leaf]
  split
  · nofun
  · split
    · nofun
    · split <;> nofun

/-- Whatever there is instead of a directory, a path that goes on leads nowhere. -/
theorem exists_beyond (volume : Volume) (directory component : Text) :
    ∃ error, (volume.leaf directory component).beyond = .nowhere error := by
  cases place : volume.leaf directory component with
  | directory => exact absurd place leaf_ne_directory
  | file => exact ⟨_, rfl⟩
  | device => exact ⟨_, rfl⟩
  | nowhere error => exact ⟨error, rfl⟩

/-- Where components lead to a directory, those behind them are followed from there. -/
theorem follow_append (reached : volume.follow directory first = .directory around)
    (components : List Text) :
    volume.follow directory (first ++ components) = volume.follow around components := by
  induction first generalizing directory with
  | nil =>
    cases reached
    rfl
  | cons component first ih =>
    rw [follow_cons] at reached
    rw [List.cons_append, follow_cons]
    cases entered : volume.enter? directory component with
    | some next =>
      rw [entered] at reached
      exact ih reached
    | none =>
      rw [entered] at reached
      cases first with
      | nil => exact absurd reached leaf_ne_directory
      | cons =>
        obtain ⟨error, nowhere⟩ := exists_beyond volume directory component
        exact nomatch nowhere.symm.trans reached

/-- A name leads to a directory of its own, or to what is there instead. -/
theorem follow_name (isName : Path.IsFileName name) : volume.follow around [name] =
    if maxNameBytes < name.byteLength then .nowhere .nameTooLong
    else if volume.hasDirectory (child around name) then .directory (child around name)
    else volume.leaf around name := by
  have noPair := beq_eq_false_iff_ne.2 isName.noPair
  rw [follow_cons, enter?, isName.isTrivial_eq, noPair, if_neg Bool.false_ne_true,
    if_neg Bool.false_ne_true]
  by_cases long : maxNameBytes < name.byteLength
  · rw [if_pos long, if_pos long, leaf, if_pos long]
    rfl
  rw [if_neg long, if_neg long]
  by_cases there : volume.hasDirectory (child around name)
  · rw [if_pos there, if_pos there]
    rfl
  · rw [if_neg there, if_neg there]
    rfl

end Steps

section Kept

/-- What no new file takes the place of: a directory, or a file that is there. -/
def Place.IsKept : Place → Prop
  | .directory _ => True
  | .file _ => True
  | .device _ => False
  | .nowhere _ => False

/-- A file that is there is not hidden by one more file. -/
theorem leaf_withFile (kept : (volume.leaf directory component).IsKept) :
    (volume.withFile file content).leaf directory component =
      volume.leaf directory component := by
  rw [leaf] at kept
  rw [leaf, leaf]
  split at kept
  · exact absurd kept nofun
  rename_i short
  rw [if_neg short, if_neg short]
  split at kept
  · rename_i isFile
    have still : (volume.withFile file content).files.contains (child directory component) := by
      rw [contains_withFile, isFile, Bool.or_true]
    rw [if_pos still, if_pos isFile]
  · split at kept <;> exact absurd kept nofun

/-- Components that lead to a directory or a file lead there when there is one more file. -/
theorem follow_withFile (kept : (volume.follow directory components).IsKept) :
    (volume.withFile file content).follow directory components =
      volume.follow directory components := by
  induction components generalizing directory with
  | nil => rfl
  | cons component components ih =>
    have entersAlike : (volume.withFile file content).enter? directory component =
        volume.enter? directory component := rfl
    rw [follow_cons] at kept
    rw [follow_cons, follow_cons, entersAlike]
    cases entered : volume.enter? directory component with
    | some next =>
      rw [entered] at kept
      exact ih kept
    | none =>
      rw [entered] at kept
      cases components with
      | nil => exact leaf_withFile kept
      | cons =>
        obtain ⟨error, nowhere⟩ := exists_beyond volume directory component
        have leaves : (Place.nowhere error).IsKept := nowhere ▸ kept
        exact leaves.elim

/-- A path that leads to a directory or a file leads there when there is one more file. -/
theorem find_withFile (kept : (volume.find path).IsKept) :
    (volume.withFile file content).find path = volume.find path := by
  have startsAlike : (volume.withFile file content).start path = volume.start path := rfl
  rw [find] at kept
  rw [find, find, startsAlike]
  cases refused : refusal? path with
  | some error => rfl
  | none =>
    rw [refused] at kept
    exact follow_withFile kept

/-- A file keeps its content when another one is written, and the paths to it lead to it still. -/
theorem Stores.withFile (stores : volume.Stores path file content) (apart : file ≠ other)
    (data : List UInt8) : (volume.withFile other data).Stores path file content where
  found := by
    have kept : (volume.find path).IsKept := by
      rw [stores.found]
      trivial
    rw [find_withFile kept, stores.found]
  holds := by
    rw [Volume.withFile, NameMap.find?_insert, if_neg apart.symm, stores.holds]

end Kept

section Write

/-- A path leads through a directory to a name in it. -/
structure LeadsTo (volume : Volume) (path around name : Text) : Prop where
  /-- The path can be followed. -/
  allowed : refusal? path = none
  /-- Its components before the name lead to the directory. -/
  through : ∃ directory outer, volume.start path = (directory, outer ++ [name]) ∧
    volume.follow directory outer = .directory around

/-- A path starts somewhere and ends with its last component. -/
theorem exists_start (volume : Volume)
    (last : (path.fields (· == '/')).getLast? = some name) :
    ∃ directory outer, volume.start path = (directory, outer ++ [name]) := by
  unfold start
  split
  · rw [Path.fields_slash, Path.getLast?_cons_fields] at last
    obtain ⟨outer, same⟩ := List.getLast?_eq_some_iff.1 last
    exact ⟨_, outer, by rw [same]⟩
  · obtain ⟨outer, same⟩ := List.getLast?_eq_some_iff.1 last
    exact ⟨_, outer, by rw [same]⟩

/-- A path that leads through a directory leads to what its last name leads to from there. -/
theorem LeadsTo.find_eq (leads : volume.LeadsTo path around name) :
    volume.find path = volume.follow around [name] := by
  obtain ⟨directory, outer, starts, reached⟩ := leads.through
  rw [find, leads.allowed, starts]
  exact follow_append reached [name]

/-- One more file does not change which directory a path leads through. -/
theorem LeadsTo.withFile (leads : volume.LeadsTo path around name) (file : Text)
    (content : List UInt8) : (volume.withFile file content).LeadsTo path around name where
  allowed := leads.allowed
  through := by
    obtain ⟨directory, outer, starts, reached⟩ := leads.through
    have kept : (volume.follow directory outer).IsKept := by
      rw [reached]
      trivial
    exact ⟨directory, outer, starts, (follow_withFile kept).trans reached⟩

/-- A file that is put in where a path leads to is what the path leads to, if its name is not too
long and no directory has the name. -/
theorem LeadsTo.stores (leads : volume.LeadsTo path around name) (isName : Path.IsFileName name)
    (short : name.byteLength ≤ maxNameBytes)
    (free : ¬volume.hasDirectory (child around name)) (content : List UInt8) :
    (volume.withFile (child around name) content).Stores path (child around name) content where
  found := by
    have isFile : (volume.withFile (child around name) content).files.contains
        (child around name) := by
      rw [contains_withFile, beq_self_eq_true, Bool.true_or]
    have still : ¬(volume.withFile (child around name) content).hasDirectory
        (child around name) := free
    have notLong := Nat.not_lt.2 short
    rw [(leads.withFile _ _).find_eq, follow_name isName, if_neg notLong, if_neg still, leaf,
      if_neg notLong, if_pos isFile]
  holds := by rw [Volume.withFile, NameMap.find?_insert, if_pos rfl]

/-- The target of a path that ends with a name is that name, in the directory before it. -/
theorem target_eq_ok {place? : Option Text} (isName : Path.IsFileName name)
    (last : (path.fields (· == '/')).getLast? = some name)
    (reached : volume.target path = .ok (around, place?)) :
    volume.LeadsTo path around name ∧ place? = some name := by
  obtain ⟨directory, outer, starts⟩ := volume.exists_start last
  have divided : splitLast (outer ++ [name]) = (outer, some name) := by
    have nonempty : name.isEmpty = false := List.isEmpty_eq_false_iff.2 isName.nonempty
    rw [splitLast, List.reverse_append, List.reverse_singleton, List.singleton_append,
      List.dropWhile_cons_of_neg (by simp [nonempty])]
    simp
  have named : (some name).filter (fun name => !Path.isTrivial name && name != ['.', '.']) =
      some name := by
    rw [Option.filter_some, isName.isTrivial_eq, bne_iff_ne.2 isName.noPair]
    rfl
  rw [target] at reached
  cases allowed : refusal? path with
  | some error =>
    rw [allowed] at reached
    exact nomatch reached
  | none =>
    rw [allowed, starts] at reached
    dsimp only at reached
    rw [divided] at reached
    dsimp only at reached
    rw [named] at reached
    split at reached
    · rename_i found
      cases reached
      exact ⟨⟨allowed, directory, outer, starts, found⟩, rfl⟩
    all_goals exact nomatch reached

/-- A name is no device, wherever it is, unless the path of a device ends with it. -/
theorem ofPath?_child (noDevice : ∀ device : Device, ¬name <:+ device.path) :
    Device.ofPath? (child around name) = none := by
  refine List.find?_eq_none.2 fun device _ isDevice => noDevice device ?_
  rw [beq_iff_eq.1 isDevice, child]
  split
  · exact List.suffix_refl name
  · exact (List.suffix_cons _ name).trans (List.suffix_append around _)

/-- A path does not lead to a device if its last name is none that ends the path of a device. -/
theorem find_ne_device (isName : Path.IsFileName name)
    (last : (path.fields (· == '/')).getLast? = some name)
    (noDevice : ∀ device : Device, ¬name <:+ device.path) (volume : Volume) (device : Device) :
    volume.find path ≠ .device device := by
  have follows (outer : List Text) (directory : Text) :
      volume.follow directory (outer ++ [name]) ≠ .device device := by
    induction outer generalizing directory with
    | nil =>
      rw [List.nil_append, follow_name isName, leaf, ofPath?_child noDevice]
      dsimp only
      repeat' split
      all_goals nofun
    | cons component outer ih =>
      rw [List.cons_append, follow_cons]
      cases volume.enter? directory component with
      | some next => exact ih next
      | none =>
        obtain ⟨error, nowhere⟩ := exists_beyond volume directory component
        have goesOn : (outer ++ [name]).isEmpty = false := by simp
        rw [goesOn, nowhere]
        nofun
  obtain ⟨directory, outer, starts⟩ := volume.exists_start last
  rw [find, starts]
  cases refusal? path with
  | some error => nofun
  | none => exact follows outer directory

/-- Different names are those of different files, whatever directories these are in. -/
theorem child_injective {otherAround otherName : Text} (isName : Path.IsFileName name)
    (isOther : Path.IsFileName otherName)
    (same : child around name = child otherAround otherName) : name = otherName := by
  have last (around : Text) {name : Text} (isName : Path.IsFileName name) :
      ((child around name).fields (· == '/')).getLast? = some name := by
    rw [child]
    split
    · rw [isName.fields_eq]
      rfl
    · rw [Text.fields_append (by rfl), isName.fields_eq, List.getLast?_concat]
  have lasts := last around isName
  rw [same, last otherAround isOther] at lasts
  exact (Option.some.inj lasts).symm

/-- What is written behind a directory under a name that no device has is a file in that
directory, to which its path leads. -/
theorem write_eq_ok (isName : Path.IsFileName name)
    (last : (path.fields (· == '/')).getLast? = some name)
    (noDevice : ∀ device : Device, ¬name <:+ device.path)
    (success : volume.write path content = .ok written) :
    ∃ around, written = volume.withFile (child around name) content ∧
      written.Stores path (child around name) content := by
  rw [write] at success
  cases reached : volume.target path with
  | error error =>
    rw [reached] at success
    exact nomatch success
  | ok target =>
    obtain ⟨around, place?⟩ := target
    obtain ⟨leads, rfl⟩ := target_eq_ok isName last reached
    rw [reached] at success
    dsimp only at success
    split at success
    · exact nomatch success
    rw [follow_name isName] at success
    by_cases long : maxNameBytes < name.byteLength
    · rw [if_pos long] at success
      exact nomatch success
    by_cases there : volume.hasDirectory (child around name)
    · rw [if_neg long, if_pos there] at success
      exact nomatch success
    have isWritten : volume.withFile (child around name) content = written := by
      rw [if_neg long, if_neg there, leaf, if_neg long, ofPath?_child noDevice] at success
      by_cases isFile : volume.files.contains (child around name)
      · rw [if_pos isFile] at success
        exact Except.ok.inj success
      · rw [if_neg isFile] at success
        exact Except.ok.inj success
    subst isWritten
    exact ⟨around, rfl, leads.stores isName (Nat.le_of_not_lt long) there content⟩

end Write
end Volume
end TexStatements
