import Mathlib.Data.List.Induction
import TexStatements.Proofs.Declaration.Table

/-!
# What wrappers inherit

A wrapper is declared with what the first declared environment has that its code opens. That one
may be a wrapper itself that was defined earlier. Followed from wrapper to wrapper, whatever they
declare leads back to an environment that was declared before all of them, and has its caption, its
star and its counters (`find?_after_iff`).
-/
namespace TexStatements

namespace Wrapper

/-- Code opens an environment at a place: with a tag, or with a control sequence of its name. -/
def Opens (code : Text) (found : Found Text) : Prop :=
  found ∈ Environment.openingWord.occurrences code ∨ found ∈ ControlSequence.reader.occurrences code

/-- Of the environments of a set, code opens this one first. Where a tag starts there is a control
sequence too, and the tag counts. -/
structure FirstOpened (known : Text → Prop) (code : Text) (found : Found Text) : Prop where
  /-- It is opened. -/
  opened : Opens code found
  /-- It is in the set. -/
  isKnown : known found.value
  /-- Nothing else of the set is opened before. -/
  first : ∀ other, Opens code other → known other.value → other.place <:+ found.place
  /-- If a control sequence opens it, no tag at the same place opens anything of the set. -/
  tagged : found ∉ Environment.openingWord.occurrences code →
    ∀ tag ∈ Environment.openingWord.occurrences code, tag.place = found.place → ¬known tag.value

section FirstOpened

variable {code : Text} {found other : Found Text} {known : Text → Prop}

/-- What opens an environment is one of the openings. -/
theorem mem_openings_iff : found ∈ openings code ↔ Opens code found := by
  rw [openings, List.mem_mergeSort, List.mem_append, Opens]

/-- An opening is a place of the code. -/
theorem Opens.place_suffix (opens : Opens code found) : found.place <:+ code :=
  opens.elim (fun tag => ((Reader.occurrences_ordered _ code).1 found tag).1)
    fun control => ((Reader.occurrences_ordered _ code).1 found control).1

/-- Only one environment is opened first. -/
theorem FirstOpened.value_eq (first : FirstOpened known code found)
    (second : FirstOpened known code other) : found.value = other.value := by
  have same : found.place = other.place :=
    (second.first found first.opened first.isKnown).eq_of_length_le
      (first.first other second.opened second.isKnown).length_le
  by_cases tag : found ∈ Environment.openingWord.occurrences code
  · by_cases otherTag : other ∈ Environment.openingWord.occurrences code
    · exact Reader.value_eq_of_place_eq tag otherTag same
    · exact absurd first.isKnown (second.tagged otherTag found tag same)
  · by_cases otherTag : other ∈ Environment.openingWord.occurrences code
    · exact absurd second.isKnown (first.tagged tag other otherTag same.symm)
    · have control := first.opened.resolve_left tag
      exact Reader.value_eq_of_place_eq control (second.opened.resolve_left otherTag) same

/-- What comes no later and what comes no later than that. -/
theorem noLater_trans (left middle right : Found Text)
    (first : decide (middle.place.length ≤ left.place.length) = true)
    (second : decide (right.place.length ≤ middle.place.length) = true) :
    decide (right.place.length ≤ left.place.length) = true :=
  decide_eq_true (Nat.le_trans (of_decide_eq_true second) (of_decide_eq_true first))

/-- One of two places comes no later. -/
theorem noLater_total (left right : Found Text) :
    (decide (right.place.length ≤ left.place.length) ||
      decide (left.place.length ≤ right.place.length)) = true := by
  rw [Bool.or_eq_true, decide_eq_true_eq, decide_eq_true_eq]
  exact Nat.le_total ..

/-- Openings are in the order of the code. -/
theorem openings_ordered (code : Text) :
    (openings code).Pairwise fun earlier later => later.place.length ≤ earlier.place.length :=
  (List.pairwise_mergeSort noLater_trans noLater_total _).imp of_decide_eq_true

/-- At one place, a tag comes before a control sequence. -/
theorem tag_before_control {tag control : Found Text}
    (isTag : tag ∈ Environment.openingWord.occurrences code)
    (isControl : control ∈ ControlSequence.reader.occurrences code)
    (same : tag.place = control.place) : [tag, control].Sublist (openings code) :=
  List.pair_sublist_mergeSort noLater_trans noLater_total
    (decide_eq_true (same ▸ Nat.le_refl tag.place.length))
    ((List.singleton_sublist.2 isTag).append (List.singleton_sublist.2 isControl))

open Classical in
/-- What is found as a control sequence alone is one of the openings only once. -/
theorem openings_once {front back : List (Found Text)}
    (split : openings code = front ++ found :: back)
    (noTag : found ∉ Environment.openingWord.occurrences code) : found ∉ back := by
  intro again
  have twice : [found, found].Sublist (openings code) := by
    rw [split]
    have behind := (List.singleton_sublist.2 again).cons_cons found
    exact behind.trans (List.sublist_append_right front _)
  have count := (List.mergeSort_perm (Environment.openingWord.occurrences code ++
    ControlSequence.reader.occurrences code) _).count_eq found ▸ twice.count_le found
  rw [List.count_append, List.count_eq_zero.2 noTag] at count
  have once := List.nodup_iff_count_le_one.1 (ControlSequence.reader.nodup_occurrences code) found
  rw [List.count_cons_self, List.count_cons_self] at count
  omega

/-- The first of the openings that is in a set is opened first. -/
theorem firstOpened_of_openings {front back : List (Found Text)}
    (split : openings code = front ++ found :: back) (isKnown : known found.value)
    (unknown : ∀ earlier ∈ front, ¬known earlier.value) : FirstOpened known code found := by
  have opened : Opens code found := by
    rw [← mem_openings_iff, split]
    exact List.mem_append_right front (List.mem_cons_self ..)
  have ordered := openings_ordered code
  rw [split, List.pairwise_append, List.pairwise_cons] at ordered
  refine ⟨opened, isKnown, ?_, ?_⟩
  · intro other opens otherKnown
    have position := opens
    rw [← mem_openings_iff, split, List.mem_append, List.mem_cons] at position
    rcases position with earlier | rfl | later
    · exact absurd otherKnown (unknown other earlier)
    · exact List.suffix_refl _
    · exact List.suffix_of_suffix_length_le opens.place_suffix opened.place_suffix
        (ordered.2.1.1 other later)
  · intro noTag tag isTag same tagKnown
    have pair := tag_before_control isTag (opened.resolve_left noTag) same
    rw [split, List.sublist_append_iff] at pair
    obtain ⟨inFront, others, whole, isFront, isOthers⟩ := pair
    -- The tag is not in front, so it comes behind the control sequence, which then comes twice.
    cases inFront with
    | cons first more =>
      obtain ⟨rfl, -⟩ := List.cons.inj whole
      exact unknown tag (isFront.subset (List.mem_cons_self ..)) tagKnown
    | nil =>
      rw [List.nil_append] at whole
      subst whole
      cases isOthers with
      | cons _ inBack =>
        have again := inBack.subset (List.mem_cons_of_mem _ (List.mem_singleton_self found))
        exact openings_once split noTag again
      | cons_cons _ _ => exact noTag isTag

/-- The environment that a wrapper is declared like is the one that its code opens first. -/
theorem wrapped?_eq_some_iff {table : DeclarationTable} {declaration : Declaration} :
    wrapped? code table = some declaration ↔
      ∃ found, FirstOpened (· ∈ table.keys) code found ∧
        table.find? found.value = some declaration := by
  have forward : ∀ {declaration}, wrapped? code table = some declaration →
      ∃ found, FirstOpened (· ∈ table.keys) code found ∧
        table.find? found.value = some declaration := by
    intro declaration wrapped
    obtain ⟨front, found, back, split, isFound, absent⟩ := List.findSome?_eq_some_iff.1 wrapped
    refine ⟨found, firstOpened_of_openings split (NameMap.mem_keys_iff.2 ⟨_, isFound⟩) ?_, isFound⟩
    intro earlier mem known
    obtain ⟨value, isValue⟩ := NameMap.mem_keys_iff.1 known
    rw [absent earlier mem] at isValue
    cases isValue
  refine ⟨forward, ?_⟩
  rintro ⟨found, isFirst, isFound⟩
  cases wrapped : wrapped? code table with
  | none =>
    have absent := List.findSome?_eq_none_iff.1 wrapped found (mem_openings_iff.2 isFirst.opened)
    rw [absent] at isFound
    cases isFound
  | some other =>
    obtain ⟨same, isAlsoFirst, isAlsoFound⟩ := forward wrapped
    rw [isFirst.value_eq isAlsoFirst, isAlsoFound] at isFound
    exact isFound

end FirstOpened

end Wrapper

namespace DeclarationTable

open Declaration Wrapper

/-- The table after wrappers were entered, one after another. -/
def after (table : DeclarationTable) (wrappers : List Wrapper) : DeclarationTable :=
  wrappers.foldl (fun table wrapper => (wrapper.enter table).1) table

/-- An environment leads back to one of a table. It is that one; or the first wrapper that is
declared under its name opens first, among what is declared there, an environment that does. -/
inductive Inherits (table : DeclarationTable) : List Wrapper → Text → Declaration → Prop
  /-- An environment of the table is its own root. -/
  | declared {name : Text} {root : Declaration} (wrappers : List Wrapper) :
    table.find? name = some root → Inherits table wrappers name root
  /-- A wrapper has the root of the environment that its code opens first. -/
  | wrapper {earlier : List Wrapper} {wrapper : Wrapper} {found : Found Text} {root : Declaration}
    (later : List Wrapper) :
    IsDeclarable wrapper.name → wrapper.name ∉ (table.after earlier).keys →
    FirstOpened (· ∈ (table.after earlier).keys) wrapper.opening found →
    Inherits table earlier found.value root →
    Inherits table (earlier ++ wrapper :: later) wrapper.name root

variable {table : DeclarationTable} {declaration root : Declaration} {name : Text}
  {wrappers : List Wrapper}

section After

/-- One more wrapper is entered last. -/
theorem after_concat (table : DeclarationTable) (wrappers : List Wrapper) (wrapper : Wrapper) :
    table.after (wrappers ++ [wrapper]) = (wrapper.enter (table.after wrappers)).1 :=
  List.foldl_concat ..

/-- Wrappers in a row are entered in order. -/
theorem after_append (table : DeclarationTable) (wrappers more : List Wrapper) :
    table.after (wrappers ++ more) = (table.after wrappers).after more := List.foldl_append

/-- What is found after a wrapper was entered: what was found before, or else what the wrapper
declares. -/
theorem find?_enter (wrapper : Wrapper) (table : DeclarationTable) (name : Text) :
    (wrapper.enter table).1.find? name = (table.find? name).or
      (if IsDeclarable wrapper.name ∧ wrapper.name = name then
        (wrapped? wrapper.opening table).map fun inner => (wrapper.declaration inner).entered
      else none) := by
  unfold Wrapper.enter
  cases wrapped? wrapper.opening table with
  | none => simp
  | some inner => exact find?_declare table (wrapper.declaration inner) name

/-- What is found stays when wrappers are entered. -/
theorem find?_after_of_find? (found : table.find? name = some declaration)
    (wrappers : List Wrapper) : (table.after wrappers).find? name = some declaration := by
  induction wrappers generalizing table with
  | nil => exact found
  | cons wrapper more ih =>
    have entered : (wrapper.enter table).1.find? name = some declaration := by
      rw [find?_enter, found, Option.some_or]
    exact ih entered

/-- A declaration is entered at the end, or not at all. -/
theorem entries_prefix_declare (table : DeclarationTable) (declaration : Declaration) :
    table.entries <+: (table.declare declaration).1.entries := by
  by_cases declarable : IsDeclarable declaration.name
  · by_cases known : declaration.name ∈ table.keys
    · rewrite [declare_of_mem declarable known]
      exact List.prefix_refl _
    · rw [declare_of_not_mem declarable known]
      exact ⟨_, (NameMap.put_of_not_mem _ known).symm⟩
  · rewrite [declare_of_undeclarable table declarable]
    exact List.prefix_refl _

/-- So is a wrapper. -/
theorem entries_prefix_enter (wrapper : Wrapper) (table : DeclarationTable) :
    table.entries <+: (wrapper.enter table).1.entries := by
  unfold Wrapper.enter
  cases wrapped? wrapper.opening table with
  | none => exact List.prefix_refl _
  | some inner => exact entries_prefix_declare table (wrapper.declaration inner)

/-- Wrappers are entered at the end. -/
theorem entries_prefix_after (table : DeclarationTable) (wrappers : List Wrapper) :
    table.entries <+: (table.after wrappers).entries := by
  induction wrappers generalizing table with
  | nil => exact List.prefix_refl _
  | cons wrapper more ih => exact (entries_prefix_enter wrapper table).trans (ih _)

end After

section Inherits

/-- A captioned table: no caption is empty, and none has blanks around it. -/
def Captioned (table : DeclarationTable) : Prop :=
  ∀ declaration ∈ table.values,
    declaration.caption ≠ [] ∧ declaration.caption.trim = declaration.caption

instance (table : DeclarationTable) : Decidable table.Captioned :=
  inferInstanceAs (Decidable (∀ declaration ∈ table.values, _))

/-- Wrappers that are defined later change no root. -/
theorem Inherits.append (inherits : table.Inherits wrappers name root) (more : List Wrapper) :
    table.Inherits (wrappers ++ more) name root := by
  cases inherits with
  | declared _ found => exact .declared _ found
  | wrapper later declarable fresh opened inner =>
    rw [List.append_assoc, List.cons_append]
    exact .wrapper (later ++ more) declarable fresh opened inner

/-- A root is an environment of the table. -/
theorem Inherits.exists_find? (inherits : table.Inherits wrappers name root) :
    ∃ own, table.find? own = some root := by
  induction inherits with
  | declared _ found => exact ⟨_, found⟩
  | wrapper _ _ _ _ _ ih => exact ih

/-- A wrapper is entered with the caption, the star and the counters of the root. -/
theorem entered_declaration (sound : table.Sound) (captioned : table.Captioned)
    (inherits : table.Inherits wrappers name root) (wrapper : Wrapper) :
    (wrapper.declaration { root with name }).entered = { root with name := wrapper.name } := by
  obtain ⟨own, found⟩ := inherits.exists_find?
  obtain ⟨nonempty, trimmed⟩ := captioned root (NameMap.mem_values_of_find? found)
  have same : wrapper.declaration { root with name } = { root with name := wrapper.name } := by
    simp [Wrapper.declaration, Declaration.new, Text.nonBlank?_eq_some trimmed nonempty]
  rw [same, entered]
  rcases (sound.regular found).single with own | unbound
  · simp [own]
  · simp [unbound]

/-- After wrappers were entered, an environment is declared exactly if it leads back to one that was
declared before, and like that one. -/
theorem find?_after_iff (sound : table.Sound) (captioned : table.Captioned) :
    (table.after wrappers).find? name = some declaration ↔
      ∃ root, table.Inherits wrappers name root ∧ declaration = { root with name } := by
  constructor
  -- Whatever the last wrapper adds is like something that was found before it was entered.
  · intro found
    induction wrappers using List.reverseRecOn generalizing name declaration with
    | nil =>
      refine ⟨declaration, .declared [] found, ?_⟩
      rw [← sound.named found]
    | append_singleton wrappers wrapper ih =>
      rw [after_concat, find?_enter, Option.or_eq_some_iff] at found
      rcases found with old | ⟨absent, new⟩
      · obtain ⟨root, inherits, same⟩ := ih old
        exact ⟨root, inherits.append _, same⟩
      · rw [Option.ite_none_right_eq_some, Option.map_eq_some_iff] at new
        obtain ⟨⟨declarable, rfl⟩, inner, wraps, rfl⟩ := new
        obtain ⟨opening, opened, isFound⟩ := wrapped?_eq_some_iff.1 wraps
        obtain ⟨root, inherits, rfl⟩ := ih isFound
        have fresh : wrapper.name ∉ (table.after wrappers).keys := by
          rw [NameMap.mem_keys_iff, absent]
          simp
        exact ⟨root, .wrapper [] declarable fresh opened inherits,
          entered_declaration sound captioned inherits wrapper⟩
  -- Along the way back to the root every wrapper is entered, and what is entered stays.
  · rintro ⟨root, inherits, rfl⟩
    induction inherits with
    | declared wrappers found =>
      rw [find?_after_of_find? found, ← sound.named found]
    | @wrapper earlier wrapper opening root later declarable fresh opened inherits ih =>
      have entered : (table.after (earlier ++ [wrapper])).find? wrapper.name =
          some { root with name := wrapper.name } := by
        rw [NameMap.mem_keys_iff, not_exists] at fresh
        have absent : (table.after earlier).find? wrapper.name = none :=
          Option.eq_none_iff_forall_ne_some.2 fresh
        rw [after_concat, find?_enter, absent, Option.none_or, if_pos ⟨declarable, rfl⟩,
          wrapped?_eq_some_iff.2 ⟨opening, opened, ih⟩, Option.map_some,
          entered_declaration sound captioned inherits]
      rw [List.append_cons, after_append]
      exact find?_after_of_find? entered later

end Inherits

end DeclarationTable
end TexStatements
