import Mathlib.Data.List.TakeWhile
import TexStatements.Proofs.Source.NormalPath

/-!
# File names

What lies in a directory of a disk has a name, and its path is the name put behind the directory.
The name is read back from there (`fileName?_join`), and divided into stem and extension in one way
only (`divideName_eq_iff`), so that the path of a document file is recognized by its name
(`extension?_join_eq_iff`).
-/
namespace TexStatements
namespace Path

/-- A name that something may have in a directory of a disk. -/
abbrev IsFileName (name : Text) : Prop := IsName (· == '/') name

section Join

variable {path name directory relative : Text}

/-- What stands in front of a relative path that is put behind a directory. -/
def lead (directory : Text) : Text :=
  if directory.isEmpty || directory.getLast? = some '/' then directory else directory ++ ['/']

/-- Behind a directory a relative path stands behind a fixed text. -/
theorem join_eq_append (unrooted : relative.head? ≠ some '/') :
    join directory relative = lead directory ++ relative := by
  by_cases empty : directory = []
  · rw [empty, join, if_pos (by simp)]
    rfl
  · by_cases ends : directory.getLast? = some '/'
    · rw [join, if_neg (by simp [unrooted, empty]), if_pos ends, lead, if_pos (by simp [ends])]
    · rw [join, if_neg (by simp [unrooted, empty]), if_neg ends, lead,
        if_neg (by simp [empty, ends]), List.append_assoc, List.singleton_append]

/-- What stands in front of a relative path is nothing, or ends in a slash. -/
theorem lead_eq (directory : Text) :
    lead directory = [] ∨ ∃ front, lead directory = front ++ ['/'] := by
  by_cases empty : directory = []
  · exact .inl (by rw [empty]; rfl)
  · by_cases ends : directory.getLast? = some '/'
    · obtain ⟨front, same⟩ := List.getLast?_eq_some_iff.1 ends
      exact .inr ⟨front, by rw [lead, if_pos (by simp [ends]), same]⟩
    · exact .inr ⟨directory, by rw [lead, if_neg (by simp [empty, ends])]⟩

/-- A name does not start at the root. -/
theorem IsName.head?_ne (isName : IsFileName name) : name.head? ≠ some '/' := by
  intro rooted
  have divides := isName.whole '/' (List.mem_of_head? rooted)
  exact absurd divides (by decide)

/-- A name is not divided. -/
theorem IsName.fields_eq (isName : IsFileName name) : name.fields (· == '/') = [name] :=
  Text.fields_of_undivided isName.whole

/-- The last component behind a directory is the name that is put there. -/
theorem getLast?_fields_join (isName : IsFileName name) (directory : Text) :
    ((join directory name).fields (· == '/')).getLast? = some name := by
  rw [join_eq_append isName.head?_ne]
  rcases lead_eq directory with none | ⟨front, some⟩
  · rw [none, List.nil_append, isName.fields_eq]
    rfl
  · rw [some, List.append_assoc, List.singleton_append, Text.fields_append (by decide),
      isName.fields_eq, List.getLast?_concat]

/-- Behind a directory different relative paths stay different. -/
theorem join_right_injective {other : Text} (unrooted : relative.head? ≠ some '/')
    (otherUnrooted : other.head? ≠ some '/')
    (same : join directory relative = join directory other) : relative = other := by
  rw [join_eq_append unrooted, join_eq_append otherUnrooted] at same
  exact List.append_cancel_left same

/-- A slash at the start divides off an empty component. -/
theorem fields_slash (rest : Text) :
    Text.fields (· == '/') ('/' :: rest) = [] :: rest.fields (· == '/') := by
  have same : Text.fields (· == '/') ([] ++ '/' :: rest) = _ := Text.fields_append rfl [] rest
  exact same

/-- The last component is not the one that is divided off in front. -/
theorem getLast?_cons_fields (first rest : Text) :
    (first :: rest.fields (· == '/')).getLast? = (rest.fields (· == '/')).getLast? := by
  rw [List.getLast?_cons, List.getLast?_eq_some_getLast (Text.fields_ne_nil _ rest)]
  rfl

/-- Dividing a path keeps a name that is its last component. -/
theorem Divided.getLast?_components {parts : Parts} (divided : Divided path parts)
    (isName : IsFileName name) (last : (path.fields (· == '/')).getLast? = some name) :
    parts.components.getLast? = some name := by
  cases divided with
  | root rest => rwa [fields_slash, getLast?_cons_fields] at last
  | point =>
    have isPoint : name = ['.'] := (Option.some.inj last).symm
    exact absurd isPoint isName.noPoint
  | below rest =>
    have leads : Text.fields (· == '/') ('.' :: '/' :: rest) =
        ['.'] :: rest.fields (· == '/') := by
      have same : Text.fields (· == '/') (['.'] ++ '/' :: rest) = _ :=
        Text.fields_append rfl ['.'] rest
      exact same
    rw [leads, getLast?_cons_fields] at last
    rwa [getLast?_cons_fields]
  | plain unrooted => exact last

/-- The file name behind a directory is the name that is put there. -/
@[simp] theorem fileName?_join (isName : IsFileName name) (directory : Text) :
    fileName? (join directory name) = some name := by
  have last := (divided_parts (join directory name)).getLast?_components isName
    (getLast?_fields_join isName directory)
  obtain ⟨outer, components⟩ := List.getLast?_eq_some_iff.1 last
  have moves : (parts (join directory name)).moves =
      name :: (outer.filter fun component => !isTrivial component).reverse := by
    rw [Parts.moves, components, List.filter_append, List.reverse_append]
    simp [isName.isTrivial_eq]
  rw [fileName?, moves]
  exact if_neg isName.noPair

end Join

section Extension

variable {name stem extension directory : Text}

/-- A name is divided at a point behind which there is no other one, unless it starts there. -/
theorem divideName_append (nonempty : stem ≠ []) (free : '.' ∉ extension) :
    divideName (stem ++ '.' :: extension) = (stem, some extension) := by
  have kept : ∀ c ∈ extension.reverse, (c != '.') = true := fun c mem =>
    bne_iff_ne.2 fun same => free (same ▸ List.mem_reverse.1 mem)
  have turned : (stem ++ '.' :: extension).reverse =
      extension.reverse ++ '.' :: stem.reverse := by simp
  have taken : (stem ++ '.' :: extension).reverse.takeWhile (· != '.') = extension.reverse := by
    rw [turned, List.takeWhile_append_of_pos kept]
    simp
  have dropped : (stem ++ '.' :: extension).reverse.dropWhile (· != '.') =
      '.' :: stem.reverse := by
    rw [turned, List.dropWhile_append_of_pos kept]
    rfl
  rw [divideName, taken, dropped, List.reverse_cons, List.reverse_reverse, List.reverse_reverse,
    List.dropLast_concat]
  cases stem with
  | nil => exact absurd rfl nonempty
  | cons first stem => rfl

/-- A name is divided into a stem and an extension exactly if it consists of them, with a point
between that is the last one and not at the start. -/
theorem divideName_eq_iff : divideName name = (stem, some extension) ↔
    name = stem ++ '.' :: extension ∧ stem ≠ [] ∧ '.' ∉ extension := by
  constructor
  · intro divided
    have whole : name = (name.reverse.dropWhile (· != '.')).reverse ++
        (name.reverse.takeWhile (· != '.')).reverse := by
      rw [← List.reverse_append, List.takeWhile_append_dropWhile, List.reverse_reverse]
    have free : '.' ∉ name.reverse.takeWhile (· != '.') := by
      intro mem
      have isKept := List.mem_takeWhile_imp mem
      exact absurd isKept (by decide)
    have leads := List.head?_dropWhile_not (· != '.') name.reverse
    rw [divideName] at divided
    cases behind : name.reverse.dropWhile (· != '.') with
    | nil =>
      rw [behind] at divided
      exact nomatch divided
    | cons point outer =>
      rw [behind] at divided leads whole
      obtain rfl : point = '.' := by simpa using leads
      rw [List.reverse_cons, List.dropLast_concat] at divided
      split at divided
      · exact nomatch divided
      · rename_i nonempty
        cases divided
        refine ⟨?_, nonempty, fun mem => free (List.mem_reverse.1 mem)⟩
        rwa [List.reverse_cons, List.append_assoc, List.singleton_append] at whole
  · rintro ⟨rfl, nonempty, free⟩
    exact divideName_append nonempty free

/-- Behind a directory a path has the extension that its name ends in. -/
theorem extension?_join_eq_iff (isName : IsFileName name) (free : '.' ∉ extension) :
    extension? (join directory name) = some extension ↔
      ∃ stem, stem ≠ [] ∧ name = stem ++ '.' :: extension := by
  rw [extension?, fileName?_join isName]
  constructor
  · intro same
    have divided : divideName name = ((divideName name).1, some extension) :=
      Prod.ext rfl same
    obtain ⟨whole, nonempty, -⟩ := divideName_eq_iff.1 divided
    exact ⟨_, nonempty, whole⟩
  · rintro ⟨stem, nonempty, rfl⟩
    exact congrArg Prod.snd (divideName_append nonempty free)

/-- Behind a directory a path has the stem that its name starts with. -/
theorem stem?_join (isName : IsFileName (stem ++ '.' :: extension)) (nonempty : stem ≠ [])
    (free : '.' ∉ extension) : stem? (join directory (stem ++ '.' :: extension)) = some stem := by
  rw [stem?, fileName?_join isName, Option.map_some, divideName_append nonempty free]

/-- What is not divided is the start of a name once it has an extension. -/
theorem isFileName_append (whole : ∀ c ∈ stem, (c == '/') = false)
    (extensionWhole : ∀ c ∈ extension, (c == '/') = false) (nonempty : extension ≠ [])
    (free : '.' ∉ extension) : IsFileName (stem ++ '.' :: extension) := by
  obtain ⟨front, last, rfl⟩ := (List.eq_nil_or_concat' extension).resolve_left nonempty
  have isLast : (stem ++ '.' :: (front ++ [last])).getLast? = some last := by
    rw [← List.cons_append, ← List.append_assoc, List.getLast?_concat]
  have noPoint : last ≠ '.' := by
    rintro rfl
    exact free (List.mem_append_right _ (List.mem_singleton_self _))
  refine ⟨by simp, fun point => ?_, fun pair => ?_, ?_⟩
  · rw [point] at isLast
    exact noPoint (Option.some.inj isLast).symm
  · rw [pair] at isLast
    exact noPoint (Option.some.inj isLast).symm
  · intro c mem
    rcases List.mem_append.1 mem with inStem | behind
    · exact whole c inStem
    · rcases List.mem_cons.1 behind with rfl | inExtension
      · rfl
      · exact extensionWhole c inExtension

end Extension

end Path
end TexStatements
