import TexStatements.Declaration.Reader
import TexStatements.Proofs.Group.Balance

/-!
# The braces of options

An option list is divided at the commas outside braces, so the options of a list with balanced
braces have balanced braces themselves. What is written behind the first equals sign of an option
becomes its value, but if it starts and ends with a brace it loses both, even if they belong to
different groups. So the values have balanced braces exactly where that does not happen
(`values_balanced_iff`).
-/
namespace TexStatements

open Text

section Split

variable {depth : Nat} {text rest option : Text} {more : List Text} {first : Char}

/-- There is always an option. -/
theorem exists_splitOptions (depth : Nat) (text : Text) :
    ∃ option more, splitOptions depth text = option :: more := by
  unfold splitOptions
  split
  · exact ⟨_, _, rfl⟩
  · split
    · exact ⟨_, _, rfl⟩
    · dsimp only
      split <;> exact ⟨_, _, rfl⟩

/-- A comma outside braces ends an option. -/
theorem splitOptions_comma (rest : Text) :
    splitOptions 0 (',' :: rest) = [] :: splitOptions 0 rest := rfl

/-- Any other character belongs to the option that goes on behind it. -/
theorem splitOptions_cons (within : ¬(first = ',' ∧ depth = 0))
    (split : splitOptions (depthBehind depth first) rest = option :: more) :
    splitOptions depth (first :: rest) = (first :: option) :: more := by
  rw [splitOptions, if_neg within]
  rw [depthBehind] at split
  simp only [split]

/-- A text that closes all open braces is divided into options that do: the first closes those that
are open in front of it, and the others are balanced. -/
theorem splitOptions_balanced (closed : openBraces depth text = some 0) :
    ∃ option more, splitOptions depth text = option :: more ∧
      openBraces depth option = some 0 ∧ ∀ other ∈ more, other.Balanced := by
  induction text generalizing depth with
  | nil => exact ⟨[], [], rfl, closed, List.forall_mem_nil _⟩
  | cons first rest ih =>
    have counted := openBraces_cons closed
    rw [counted] at closed
    obtain ⟨option, more, split, head, others⟩ := ih closed
    by_cases ends : first = ',' ∧ depth = 0
    · obtain ⟨rfl, rfl⟩ := ends
      refine ⟨[], option :: more, ?_, rfl, List.forall_mem_cons.2 ⟨head, others⟩⟩
      rw [splitOptions_comma]
      exact congrArg (List.cons []) split
    · exact ⟨first :: option, more, splitOptions_cons ends split, (counted option).trans head,
        others⟩

/-- The options of a list with balanced braces have balanced braces. -/
theorem balanced_of_mem_splitOptions (balanced : text.Balanced)
    (mem : option ∈ splitOptions 0 text) : option.Balanced := by
  obtain ⟨first, more, split, head, others⟩ := splitOptions_balanced balanced
  rw [split] at mem
  rcases List.mem_cons.1 mem with rfl | later
  · exact head
  · exact others option later

/-- An option consists of characters of the list. -/
theorem subset_of_mem_splitOptions (mem : option ∈ splitOptions depth text) : option ⊆ text := by
  induction text generalizing depth option with
  | nil =>
    rw [List.mem_singleton.1 mem]
    exact List.Subset.refl _
  | cons first rest ih =>
    by_cases ends : first = ',' ∧ depth = 0
    · obtain ⟨rfl, rfl⟩ := ends
      rw [splitOptions_comma] at mem
      rcases List.mem_cons.1 mem with rfl | later
      · exact List.nil_subset _
      · exact List.subset_cons_of_subset _ (ih later)
    · obtain ⟨head, more, split⟩ := exists_splitOptions (depthBehind depth first) rest
      rw [splitOptions_cons ends split] at mem
      rcases List.mem_cons.1 mem with rfl | later
      · exact List.cons_subset_cons _ (ih (split ▸ List.mem_cons_self ..))
      · exact List.subset_cons_of_subset _ (ih (split ▸ List.mem_cons_of_mem _ later))

end Split

section Value

variable {option key value text : Text}

/-- What is written in front of the first equals sign of an option, or the whole option. -/
def writtenKey (option : Text) : Text := ((Text.cut? ['='] option).getD (option, [])).1.trim

/-- What is written behind the first equals sign of an option. -/
def writtenValue (option : Text) : Text := ((Text.cut? ['='] option).getD (option, [])).2.trim

/-- If a text has a brace at both ends, the two match each other. -/
def EndsMatch (text : Text) : Prop :=
  ∀ inner, text = '{' :: (inner ++ ['}']) → Group.braced? text = some (inner, [])

/-- An option with a key has what is written as its value, without braces at both ends. -/
theorem keyValue?_eq_some_iff : keyValue? option = some (key, value) ↔
    key = writtenKey option ∧ key ≠ [] ∧ value = (dropOuterBraces (writtenValue option)).trim := by
  unfold keyValue? writtenKey writtenValue nonBlank?
  dsimp only
  split
  · rename_i blank
    rw [List.isEmpty_iff] at blank
    simp only [blank, Option.map_none, reduceCtorEq, false_iff, not_and]
    exact fun same named => absurd same named
  · rename_i named
    rw [List.isEmpty_iff] at named
    simp only [Option.map_some, Option.some.injEq, Prod.mk.injEq]
    constructor
    · rintro ⟨rfl, rfl⟩
      exact ⟨rfl, named, rfl⟩
    · rintro ⟨rfl, -, rfl⟩
      exact ⟨rfl, rfl⟩

/-- A brace at both ends is dropped. -/
@[simp] theorem dropOuterBraces_group (inner : Text) :
    dropOuterBraces ('{' :: (inner ++ ['}'])) = inner := by
  simp [dropOuterBraces]

/-- Braces are dropped at both ends or not at all. -/
theorem dropOuterBraces_of_ne (apart : ∀ inner, text ≠ '{' :: (inner ++ ['}'])) :
    dropOuterBraces text = text := by
  unfold dropOuterBraces
  split
  · rename_i inside
    rw [if_neg]
    intro closes
    obtain ⟨inner, rfl⟩ := List.getLast?_eq_some_iff.1 closes
    exact apart inner rfl
  · rfl

/-- What is written is part of the option. -/
theorem writtenValue_subset (option : Text) : writtenValue option ⊆ option := by
  intro c mem
  have inside := (infix_trim _).subset mem
  cases found : Text.cut? ['='] option with
  | none =>
    rw [found] at inside
    cases inside
  | some parts =>
    rw [found] at inside
    exact (cut?_suffix found).subset inside

/-- Behind a key without braces a balanced option goes on balanced. -/
theorem balanced_writtenValue (balanced : option.Balanced)
    (free : ∀ c ∈ writtenKey option, c ≠ '{' ∧ c ≠ '}') : (writtenValue option).Balanced := by
  rw [writtenValue, balanced_trim_iff]
  cases found : Text.cut? ['='] option with
  | none => rfl
  | some parts =>
    obtain ⟨front, after⟩ := parts
    have whole := cut?_eq_append found
    have balancedFront : front.Balanced := by
      rw [← balanced_trim_iff]
      refine balanced_of_free ?_
      rw [writtenKey, found] at free
      exact free
    rw [whole, List.append_assoc, balancedFront.append_iff] at balanced
    exact balanced

/-- The value of an option has balanced braces exactly if what is written has, and the braces at its
ends, if there are any, match each other. -/
theorem value_balanced_iff (free : '\\' ∉ option) (read : keyValue? option = some (key, value)) :
    value.Balanced ↔ (writtenValue option).Balanced ∧ EndsMatch (writtenValue option) := by
  obtain ⟨-, -, rfl⟩ := keyValue?_eq_some_iff.1 read
  rw [balanced_trim_iff]
  by_cases enclosed : ∃ inner, writtenValue option = '{' :: (inner ++ ['}'])
  · obtain ⟨inner, written⟩ := enclosed
    have innerFree : '\\' ∉ inner := by
      intro mem
      have inWritten : '\\' ∈ writtenValue option := by
        rw [written]
        exact List.mem_cons_of_mem _ (List.mem_append_left _ mem)
      exact free (writtenValue_subset option inWritten)
    rw [EndsMatch, written, dropOuterBraces_group]
    constructor
    · intro balanced
      refine ⟨balanced.group, ?_⟩
      intro other same
      obtain rfl : inner = other := by simpa using same
      exact (braced?_eq_some_iff_balanced innerFree).2 balanced
    · rintro ⟨-, matching⟩
      exact (braced?_eq_some_iff_balanced innerFree).1 (matching inner rfl)
  · rw [not_exists] at enclosed
    rw [dropOuterBraces_of_ne enclosed]
    exact ⟨fun balanced => ⟨balanced, fun inner same => absurd same (enclosed inner)⟩, And.left⟩

/-- No key that means something has a brace. -/
theorem braces_not_mem_of_ofText? {meaning : DeclarationKey}
    (known : DeclarationKey.ofText? key = some meaning) : ∀ c ∈ key, c ≠ '{' ∧ c ≠ '}' := by
  have all : ∀ entry ∈ declarationKeys, ∀ c ∈ entry.1, c ≠ '{' ∧ c ≠ '}' := by decide
  have listed : key ∈ declarationKeys.map Prod.fst := by
    rw [← NameMap.look_isSome_iff]
    exact Option.isSome_of_mem known
  obtain ⟨entry, mem, rfl⟩ := List.mem_map.1 listed
  exact all entry mem

end Value

/-- In an option list with balanced braces and without backslashes every option has balanced braces.
The values have balanced braces exactly if behind every key what is written has, and the braces at
its ends, if there are any, match each other. Behind a key that means something only the latter
can fail. -/
theorem values_balanced_iff {options : Text} (free : '\\' ∉ options)
    (balanced : options.Balanced) :
    (∀ option ∈ splitOptions 0 options, option.Balanced) ∧
    ((∀ pair ∈ keyValues options, pair.2.Balanced) ↔
      ∀ option ∈ splitOptions 0 options, writtenKey option ≠ [] →
        (writtenValue option).Balanced ∧ EndsMatch (writtenValue option)) ∧
    ∀ option ∈ splitOptions 0 options, ∀ key value meaning,
      keyValue? option = some (key, value) → DeclarationKey.ofText? key = some meaning →
        (value.Balanced ↔ EndsMatch (writtenValue option)) := by
  have optionFree : ∀ option ∈ splitOptions 0 options, '\\' ∉ option :=
    fun option mem inside => free (subset_of_mem_splitOptions mem inside)
  refine ⟨fun option => balanced_of_mem_splitOptions balanced, ⟨?_, ?_⟩, ?_⟩
  · intro values option mem named
    have read : keyValue? option =
        some (writtenKey option, (dropOuterBraces (writtenValue option)).trim) :=
      keyValue?_eq_some_iff.2 ⟨rfl, named, rfl⟩
    exact (value_balanced_iff (optionFree option mem) read).1
      (values _ (List.mem_filterMap.2 ⟨option, mem, read⟩))
  · intro written pair mem
    obtain ⟨option, isOption, read⟩ := List.mem_filterMap.1 mem
    obtain ⟨same, named, -⟩ := keyValue?_eq_some_iff.1 read
    rw [same] at named
    exact (value_balanced_iff (optionFree option isOption) read).2
      (written option isOption named)
  · intro option mem key value meaning read known
    rw [value_balanced_iff (optionFree option mem) read]
    obtain ⟨rfl, -, -⟩ := keyValue?_eq_some_iff.1 read
    exact and_iff_right (balanced_writtenValue (balanced_of_mem_splitOptions balanced mem)
      (braces_not_mem_of_ofText? known))

/-- Braces that match each other are dropped, and those inside stay. -/
theorem values_balanced_iff_nested :
    let options : Text := "name=\x7b\x7bA\x7d, \x7bB\x7d\x7d,within=s".toList
    '\\' ∉ options ∧ options.Balanced ∧
      keyValues options = [("name".toList, "\x7bA\x7d, \x7bB\x7d".toList),
        ("within".toList, "s".toList)] ∧
      ∀ option ∈ splitOptions 0 options, writtenKey option ≠ [] →
        (writtenValue option).Balanced ∧ EndsMatch (writtenValue option) := by
  intro options
  have free : '\\' ∉ options := by decide
  have balanced : options.Balanced := by decide
  have values : keyValues options = [("name".toList, "\x7bA\x7d, \x7bB\x7d".toList),
      ("within".toList, "s".toList)] := by decide
  have kept : ∀ pair ∈ keyValues options, pair.2.Balanced := by
    rw [values]
    decide
  exact ⟨free, balanced, values, (values_balanced_iff free balanced).2.1.1 kept⟩

/-- Of a caption that starts with one group and ends with another, the braces at the two ends are
dropped. What is left is not balanced, and an environment is headed by it. -/
theorem caption_of_two_groups :
    let options : Text := "name=\x7bA\x7d and \x7bB\x7d".toList
    let text : Text := "\\declaretheorem[".toList ++ options ++ "]\x7bx\x7d".toList
    '\\' ∉ options ∧ options.Balanced ∧
      keyValues options = [("name".toList, "A\x7d and \x7bB".toList)] ∧
      ¬Balanced "A\x7d and \x7bB".toList ∧
      (DeclarationTable.collect NameMap.empty text).1.values =
        [⟨"x".toList, "A\x7d and \x7bB".toList, false, none, none⟩] := by
  decide +kernel

end TexStatements
