import Mathlib.Data.List.Basic
import TexStatements.Proofs.Source.Path

/-!
# Normal paths

Of the steps of a path those remain, once it is normalized, that no pair of points takes back. They
are names, and the normal path is spelled with them. A path that is spelled with names has these
names as its steps and enters each of them, so that normalizing it changes nothing
(`normalize_spell`), and what is entered behind it is the same as behind the path that it came from
(`normalize_canonical`).
-/
namespace TexStatements
namespace Path

/-- A component that leads one directory down: it is not passed over, does not lead up, and is not
divided. -/
structure IsName (divides : Char → Bool) (component : Text) : Prop where
  /-- It is not empty. -/
  nonempty : component ≠ []
  /-- It is no point. -/
  noPoint : component ≠ ['.']
  /-- It is no pair of points. -/
  noPair : component ≠ ['.', '.']
  /-- No character of it divides a path. -/
  whole : ∀ c ∈ component, divides c = false

instance (divides : Char → Bool) (component : Text) : Decidable (IsName divides component) :=
  decidable_of_iff (component ≠ [] ∧ component ≠ ['.'] ∧ component ≠ ['.', '.'] ∧
      ∀ c ∈ component, divides c = false)
    ⟨fun ⟨nonempty, noPoint, noPair, whole⟩ => ⟨nonempty, noPoint, noPair, whole⟩,
      fun isName => ⟨isName.nonempty, isName.noPoint, isName.noPair, isName.whole⟩⟩

/-- A path spelled with its components, from the root or from anywhere. -/
def spell (rooted : Bool) (components : List Text) : Text :=
  (if rooted then ['/'] else []) ++ Text.join ['/'] components

/-- The names that a path leads through, the pairs of points taken into account. -/
def names (path : Text) : List Text := ((steps path).foldl enter []).reverse

section Names

variable {divides : Char → Bool} {component : Text} {components entered : List Text}

/-- A name does not stay where it is. -/
theorem IsName.isTrivial_eq (isName : IsName divides component) : isTrivial component = false := by
  simp [isTrivial, isName.nonempty, isName.noPoint]

/-- A name is a step. -/
theorem IsName.isStep (isName : IsName divides component) : isStep component = true := by
  rw [Path.isStep, isName.isTrivial_eq]
  rfl

/-- A name leads one directory down. -/
theorem IsName.enter_eq (isName : IsName divides component) :
    enter entered component = component :: entered := by
  have noPair := beq_eq_false_iff_ne.2 isName.noPair
  rw [enter, isName.isTrivial_eq, noPair]
  rfl

/-- Each of some names leads one directory further down. -/
theorem foldl_enter_names (names : ∀ component ∈ components, IsName divides component) :
    components.foldl enter entered = components.reverse ++ entered := by
  induction components generalizing entered with
  | nil => rfl
  | cons component components ih =>
    rw [List.forall_mem_cons] at names
    rw [List.foldl_cons, names.1.enter_eq, ih names.2, List.reverse_cons, List.append_assoc,
      List.singleton_append]

/-- Components that are not divided lead to directories whose paths consist of names. -/
theorem isName_of_mem_foldl_enter (whole : ∀ component ∈ components, ∀ c ∈ component,
      divides c = false) (names : ∀ component ∈ entered, IsName divides component) :
    ∀ component ∈ components.foldl enter entered, IsName divides component := by
  induction components generalizing entered with
  | nil => exact names
  | cons component components ih =>
    rw [List.forall_mem_cons] at whole
    refine ih whole.2 ?_
    rw [enter]
    split
    · exact names
    · rename_i step
      split
      · exact fun other mem => names other (List.mem_of_mem_drop mem)
      · rename_i down
        have nonempty : component ≠ [] := fun empty => step (by simp [isTrivial, empty])
        have noPoint : component ≠ ['.'] := fun point => step (by simp [isTrivial, point])
        have noPair : component ≠ ['.', '.'] := fun pair => down (by simp [pair])
        exact List.forall_mem_cons.2 ⟨⟨nonempty, noPoint, noPair, whole.1⟩, names⟩

end Names

section Spelling

variable {path : Text} {components : List Text} {rooted : Bool}

/-- A path leads through names. -/
theorem isName_of_mem_names (path : Text) : ∀ name ∈ names path, IsName isSeparator name := by
  intro name mem
  have whole : ∀ step ∈ steps path, ∀ c ∈ step, isSeparator c = false := by
    intro step isStep c inside
    exact (Text.undivided_of_mem_fields (List.mem_filter.1 isStep).1 c inside).2
  have atStart : ∀ component ∈ ([] : List Text), IsName isSeparator component :=
    List.forall_mem_nil _
  exact isName_of_mem_foldl_enter whole atStart name (List.mem_reverse.1 mem)

/-- A normal path is spelled with the names that the path leads through. -/
theorem normalize_eq_spell (path : Text) :
    normalize path = spell (decide (path.head? = some '/')) (names path) := by
  rw [normalize, foldl_enter_filter, spell, names, steps]
  by_cases rooted : path.head? = some '/'
  · simp [rooted]
  · simp [rooted]

/-- Names, joined by slashes, do not start with a slash. -/
theorem head?_join_names (names : ∀ component ∈ components, IsName isSeparator component) :
    (Text.join ['/'] components).head? ≠ some '/' := by
  cases components with
  | nil => nofun
  | cons component components =>
    have isName := names component (List.mem_cons_self ..)
    obtain ⟨first, rest, rfl⟩ := List.exists_cons_of_ne_nil isName.nonempty
    have other : first ≠ '/' := by
      rintro rfl
      exact absurd (isName.whole '/' (List.mem_cons_self ..)) (by decide)
    obtain ⟨behind, whole⟩ := Text.join_prefix_append ['/'] [first :: rest] components
    rw [List.singleton_append] at whole
    rw [← whole]
    exact fun same => other (Option.some.inj same)

/-- A path that is spelled from the root starts with a slash, and no other one does. -/
theorem head?_spell (names : ∀ component ∈ components, IsName isSeparator component) :
    (spell rooted components).head? = some '/' ↔ rooted = true := by
  cases rooted with
  | true => exact iff_of_true rfl rfl
  | false => exact iff_of_false (head?_join_names names) Bool.false_ne_true

/-- A path has the steps that it is spelled with. -/
theorem steps_spell (names : ∀ component ∈ components, IsName isSeparator component) :
    steps (spell rooted components) = components := by
  have joined : steps (Text.join ['/'] components) = components := by
    rw [steps_of_join fun component mem => (names component mem).whole]
    exact List.filter_eq_self.2 fun component mem => (names component mem).isStep
  cases rooted with
  | true => exact (steps_slash _).trans joined
  | false => exact joined

/-- A path that is spelled with names is normal. -/
theorem normalize_spell (isNames : ∀ component ∈ components, IsName isSeparator component) :
    normalize (spell rooted components) = spell rooted components := by
  have entered : names (spell rooted components) = components := by
    rw [names, steps_spell isNames, foldl_enter_names isNames, List.append_nil,
      List.reverse_reverse]
  have start : decide ((spell rooted components).head? = some '/') = rooted := by
    rw [Bool.eq_iff_iff, decide_eq_true_iff]
    exact head?_spell isNames
  rw [normalize_eq_spell, entered, start]

/-- Normalizing twice is normalizing once. -/
theorem normalize_normalize (path : Text) : normalize (normalize path) = normalize path := by
  rw [normalize_eq_spell path]
  exact normalize_spell (isName_of_mem_names path)

/-- A normal path starts at the root exactly if the path does. -/
theorem head?_normalize (path : Text) :
    (normalize path).head? = some '/' ↔ path.head? = some '/' := by
  rw [normalize_eq_spell, head?_spell (isName_of_mem_names path), decide_eq_true_iff]

/-- The steps of a normal path are the names that the path leads through. -/
theorem steps_normalize (path : Text) : steps (normalize path) = names path := by
  rw [normalize_eq_spell, steps_spell (isName_of_mem_names path)]

/-- Behind a slash a path goes on from where the path before it leads to. -/
theorem names_append (front rest : Text) :
    names (front ++ '/' :: rest) = ((steps rest).foldl enter (names front).reverse).reverse := by
  rw [names, steps_append, List.foldl_append, names, List.reverse_reverse]

/-- A normal path leads through the names that the path leads through. -/
theorem names_normalize (path : Text) : names (normalize path) = names path := by
  rw [names, steps_normalize, foldl_enter_names (isName_of_mem_names path), List.append_nil,
    List.reverse_reverse]

/-- A backslash is in none of some names, nor between them. -/
theorem backslash_not_mem_join (names : ∀ component ∈ components, IsName isSeparator component) :
    '\\' ∉ Text.join ['/'] components := by
  induction components with
  | nil => nofun
  | cons component components ih =>
    rw [List.forall_mem_cons] at names
    have free : '\\' ∉ component := fun mem => absurd (names.1.whole _ mem) (by decide)
    by_cases last : components = []
    · rw [last]
      exact free
    · rw [Text.join_cons last]
      simp [free, ih names.2]

/-- There is no backslash in a normal path. -/
theorem backslash_not_mem_normalize (path : Text) : '\\' ∉ normalize path := by
  have free := backslash_not_mem_join (isName_of_mem_names path)
  rw [normalize_eq_spell, spell, List.mem_append, not_or]
  refine ⟨?_, free⟩
  split <;> decide

end Spelling

/-- A normal path is canonical. It is a slash, exactly if the path starts with one, and then names
joined by slashes, none of them empty, a point or a pair of points, without a backslash; it is its
own normal path; and a path behind a slash may as well stand behind the normal path, unless that is
empty, of whatever comes before the slash. -/
theorem normalize_canonical (path : Text) :
    (∃ components, normalize path = spell (decide (path.head? = some '/')) components ∧
      ∀ component ∈ components, IsName isSeparator component) ∧
    ((normalize path).head? = some '/' ↔ path.head? = some '/') ∧
    '\\' ∉ normalize path ∧
    normalize (normalize path) = normalize path ∧
    ∀ rest, normalize path ≠ [] →
      normalize (path ++ '/' :: rest) = normalize (normalize path ++ '/' :: rest) := by
  refine ⟨⟨names path, normalize_eq_spell path, isName_of_mem_names path⟩, head?_normalize path,
    backslash_not_mem_normalize path, normalize_normalize path, fun rest nonempty => ?_⟩
  have start : (path ++ '/' :: rest).head? = some '/' ↔
      (normalize path ++ '/' :: rest).head? = some '/' := by
    have given : path ≠ [] := by
      rintro rfl
      exact nonempty rfl
    rw [List.head?_append_of_ne_nil _ given, List.head?_append_of_ne_nil _ nonempty,
      head?_normalize]
  have through : names (path ++ '/' :: rest) = names (normalize path ++ '/' :: rest) := by
    rw [names_append, names_append, names_normalize]
  rw [normalize_eq_spell, normalize_eq_spell (normalize path ++ '/' :: rest), through,
    decide_eq_decide.2 start]

/-- Slashes of both kinds, points and steps out of the tree come to nothing, also when another path
follows that leads up again. -/
theorem normalize_canonical_spellings :
    normalize "/../a\\.//b/../c".toList = "/a/c".toList ∧
      normalize "/../a\\.//b/../c".toList ≠ [] ∧
      normalize ("/../a\\.//b/../c".toList ++ '/' :: "../../../d\\".toList) =
        normalize ("/a/c".toList ++ '/' :: "../../../d\\".toList) ∧
      normalize ("/a/c".toList ++ '/' :: "../../../d\\".toList) = "/d".toList := by
  have normal : normalize "/../a\\.//b/../c".toList = "/a/c".toList := by decide
  have nonempty : normalize "/../a\\.//b/../c".toList ≠ [] := by
    rw [normal]
    decide
  obtain ⟨-, -, -, -, behind⟩ := normalize_canonical "/../a\\.//b/../c".toList
  have further := behind "../../../d\\".toList nonempty
  rw [normal] at further
  exact ⟨normal, nonempty, further, by decide⟩

/-- Behind an empty normal path a slash would lead to the root. -/
example : normalize "a/../b".toList = "b".toList ∧
    normalize (normalize "a/..".toList ++ '/' :: "b".toList) = "/b".toList := by decide

end Path
end TexStatements
