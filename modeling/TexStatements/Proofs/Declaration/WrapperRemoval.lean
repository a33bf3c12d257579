import TexStatements.Proofs.Declaration.Inheritance

/-!
# The removal of environment definitions

Keywords are come to from left to right. A definition is cut out of the text from its keyword to the
end of its closing code, and what stands in it does not count; a definition with a group that is
never closed stays where it is and is warned of. The wrappers among the definitions that are cut
out are entered in their order, so what the table gains is what they inherit
(`resolveWrappers_inherits`).
-/
namespace TexStatements

namespace Wrapper

/-- The keywords of environment definitions in a text. -/
def keywords (text : Text) : List (Found Keyword) :=
  (keyword words.contains).occurrences text

/-- One place is behind up to so many bracket groups at another, as far as there are any. -/
def SkipsBrackets : Nat → Text → Text → Prop
  | 0, text, behind => behind = text
  | count + 1, text, behind => Group.readBracketed text = .absent ∧ behind = text ∨
    ∃ inner rest, Group.readBracketed text = .closed inner rest ∧ SkipsBrackets count rest behind

/-- Of up to so many bracket groups, one opens and is never closed. -/
def UnclosedBrackets : Nat → Text → Prop
  | 0, _ => False
  | count + 1, text => Group.readBracketed text = .unterminated ∨
    ∃ inner rest, Group.readBracketed text = .closed inner rest ∧ UnclosedBrackets count rest

/-- A text starts with the groups that define an environment: the name, up to two bracket groups,
the opening code and the closing code. -/
inductive Defines : Text → Wrapper → Text → Prop
  /-- All of the groups are there. -/
  | groups {text name behindName code opening behindOpening closing rest : Text} :
    Group.readBraced text = .closed name behindName → SkipsBrackets 2 behindName code →
    Group.readBraced code = .closed opening behindOpening →
    Group.readBraced behindOpening = .closed closing rest → Defines text ⟨name.trim, opening⟩ rest

/-- Of the groups that define an environment, one opens and is never closed. -/
inductive Unclosed : Text → Prop
  /-- It is that of the name. -/
  | name {text : Text} : Group.readBraced text = .unterminated → Unclosed text
  /-- It is a bracket group. -/
  | brackets {text name behindName : Text} : Group.readBraced text = .closed name behindName →
    UnclosedBrackets 2 behindName → Unclosed text
  /-- It is that of the opening code. -/
  | opening {text name behindName code : Text} :
    Group.readBraced text = .closed name behindName → SkipsBrackets 2 behindName code →
    Group.readBraced code = .unterminated → Unclosed text
  /-- It is that of the closing code. -/
  | closing {text name behindName code opening behindOpening : Text} :
    Group.readBraced text = .closed name behindName → SkipsBrackets 2 behindName code →
    Group.readBraced code = .closed opening behindOpening →
    Group.readBraced behindOpening = .unterminated → Unclosed text

section Reading

open WrapperReading

variable {text rest : Text} {wrapper : Wrapper} {reading : WrapperReading}

/-- How a group that is needed is read. -/
theorem needGroup_eq_iff {next : Text → Text → WrapperReading} :
    needGroup text next = reading ↔
      Group.readBraced text = .absent ∧ reading = .absent ∨
      Group.readBraced text = .unterminated ∧ reading = .unterminated ∨
      ∃ inner rest, Group.readBraced text = .closed inner rest ∧ next inner rest = reading := by
  unfold needGroup
  cases Group.readBraced text <;> simp [eq_comm]

/-- How bracket groups are read. -/
theorem skipBrackets_eq_iff {next : Text → WrapperReading} {count : Nat} :
    skipBrackets text next count = reading ↔
      (∃ behind, SkipsBrackets count text behind ∧ next behind = reading) ∨
      UnclosedBrackets count text ∧ reading = .unterminated := by
  induction count generalizing text with
  | zero => simp [skipBrackets, SkipsBrackets, UnclosedBrackets]
  | succ count ih =>
    rw [skipBrackets]
    cases read : Group.readBracketed text with
    | absent => simp [SkipsBrackets, UnclosedBrackets, read]
    | unterminated => simp [SkipsBrackets, UnclosedBrackets, read, eq_comm]
    | closed inner rest => simp [SkipsBrackets, UnclosedBrackets, read, ih]

/-- A definition is read exactly where there is one. -/
theorem ofText_eq_found_iff : ofText text = .found wrapper rest ↔ Defines text wrapper rest := by
  simp only [ofText, needGroup_eq_iff, skipBrackets_eq_iff, reduceCtorEq, and_false, false_or,
    or_false]
  constructor
  · rintro ⟨name, behindName, isName, code, skips, opening, behindOpening, isOpening, closing, _,
      isClosing, same⟩
    cases same
    exact .groups isName skips isOpening isClosing
  · rintro ⟨isName, skips, isOpening, isClosing⟩
    exact ⟨_, _, isName, _, skips, _, _, isOpening, _, _, isClosing, rfl⟩

/-- Reading a definition fails exactly at a group that is never closed. -/
theorem ofText_eq_unterminated_iff : ofText text = .unterminated ↔ Unclosed text := by
  simp only [ofText, needGroup_eq_iff, skipBrackets_eq_iff, reduceCtorEq, and_false, and_true,
    false_or, or_false, exists_false]
  constructor
  · rintro (isName | ⟨name, behindName, isName, ⟨code, skips, isOpening | ⟨opening, behindOpening,
      isOpening, isClosing⟩⟩ | isBrackets⟩)
    · exact .name isName
    · exact .opening isName skips isOpening
    · exact .closing isName skips isOpening isClosing
    · exact .brackets isName isBrackets
  · intro unclosed
    cases unclosed with
    | name isName => exact .inl isName
    | brackets isName isBrackets => exact .inr ⟨_, _, isName, .inr isBrackets⟩
    | opening isName skips isOpening => exact .inr ⟨_, _, isName, .inl ⟨_, skips, .inl isOpening⟩⟩
    | closing isName skips isOpening isClosing =>
      exact .inr ⟨_, _, isName, .inl ⟨_, skips, .inr ⟨_, _, isOpening, isClosing⟩⟩⟩

/-- A text that defines an environment has no group that is never closed. -/
theorem Defines.not_unclosed (defines : Defines text wrapper rest) : ¬Unclosed text := by
  intro unclosed
  have read := ofText_eq_unterminated_iff.2 unclosed
  rw [ofText_eq_found_iff.2 defines] at read
  cases read

end Reading

section Places

variable {text rest behind : Text} {wrapper : Wrapper}

/-- Bracket groups are skipped within the text. -/
theorem SkipsBrackets.suffix {count : Nat} (skips : SkipsBrackets count text behind) :
    behind <:+ text := by
  induction count generalizing text with
  | zero => exact skips ▸ List.suffix_refl _
  | succ count ih =>
    rcases skips with ⟨-, rfl⟩ | ⟨inner, rest, read, later⟩
    · exact List.suffix_refl _
    · exact (ih later).trans (Group.readGroup_advances read).suffix

/-- A definition ends within the text. -/
theorem Defines.suffix (defines : Defines text wrapper rest) : rest <:+ text := by
  obtain ⟨isName, skips, isOpening, isClosing⟩ := defines
  have behindName := skips.suffix.trans (Group.readGroup_advances isName).suffix
  have behindOpening := (Group.readGroup_advances isOpening).suffix.trans behindName
  exact (Group.readGroup_advances isClosing).suffix.trans behindOpening

/-- What is behind a star is within the text. -/
theorem behindStar_suffix (text : Text) : behindStar text <:+ text := by
  unfold behindStar
  split
  · exact List.suffix_cons _ _
  · exact List.suffix_refl _

/-- A keyword ends before the text behind it. -/
theorem keyword_advances {accepts : Text → Bool} {place : Text} {found : Keyword}
    (read : (keyword accepts).read place = some (found, rest)) : place.Advances found.after := by
  simp only [keyword, Option.bind_eq_bind, Option.bind_eq_some_iff, Option.some.injEq,
    Prod.mk.injEq] at read
  obtain ⟨⟨word, after⟩, isWord, rfl, -⟩ := read
  exact (controlWord accepts).advances isWord

end Places

/-- A definition that is cut out of a text. -/
structure Removal where
  /-- Its keyword, at which it starts. -/
  found : Found Keyword
  /-- What it defines. -/
  wrapper : Wrapper
  /-- The text behind it. -/
  rest : Text

/-- A place is in a definition. Places of one text are told apart by how much of it is left. -/
def Removal.Covers (removal : Removal) (place : Text) : Prop :=
  removal.rest.length < place.length ∧ place.length ≤ removal.found.place.length

/-- What is left of a text from which definitions are cut out, one behind another. -/
inductive Without : Text → List Removal → Text → Prop
  /-- Behind the last one everything is left. -/
  | rest (text : Text) : Without text [] text
  /-- What is before a definition is left, and the text goes on behind it. -/
  | cut {more : List Removal} {left : Text} (kept : Text) (removal : Removal) :
    removal.found.place.Advances removal.rest → Without removal.rest more left →
    Without (kept ++ removal.found.place) (removal :: more) (kept ++ left)

/-- What keywords come to from where a text is undecided: the definitions that are cut out, and the
keywords of those that are never closed. -/
inductive Passes : Text → List (Found Keyword) → List Removal → List (Found Keyword) → Prop
  /-- No keyword is left. -/
  | done (pending : Text) : Passes pending [] [] []
  /-- A keyword in a definition that was cut out does not count. -/
  | inside {pending : Text} {found : Found Keyword} {more unclosed : List (Found Keyword)}
    {removed : List Removal} :
    pending.length < found.place.length → Passes pending more removed unclosed →
    Passes pending (found :: more) removed unclosed
  /-- A keyword without a definition is passed over. -/
  | absent {pending : Text} {found : Found Keyword} {more unclosed : List (Found Keyword)}
    {removed : List Removal} :
    found.place.length ≤ pending.length →
    (∀ wrapper rest, ¬Defines (behindStar found.value.after) wrapper rest) →
    ¬Unclosed (behindStar found.value.after) → Passes pending more removed unclosed →
    Passes pending (found :: more) removed unclosed
  /-- A definition that is never closed is passed over. -/
  | unclosed {pending : Text} {found : Found Keyword} {more unclosed : List (Found Keyword)}
    {removed : List Removal} :
    found.place.length ≤ pending.length → Unclosed (behindStar found.value.after) →
    Passes pending more removed unclosed →
    Passes pending (found :: more) removed (found :: unclosed)
  /-- A definition is cut out, and what is behind it is undecided. -/
  | removed {pending rest : Text} {found : Found Keyword} {more unclosed : List (Found Keyword)}
    {removed : List Removal} {wrapper : Wrapper} :
    found.place.length ≤ pending.length →
    Defines (behindStar found.value.after) wrapper rest → Passes rest more removed unclosed →
    Passes pending (found :: more) (⟨found, wrapper, rest⟩ :: removed) unclosed

/-- Keywords of a text, in their order. -/
structure InOrder (text : Text) (founds : List (Found Keyword)) : Prop where
  /-- They are read in the text. -/
  places : ∀ found ∈ founds, found.place <:+ text ∧
    (keyword words.contains).read found.place = some (found.value, found.rest)
  /-- Each lies behind those before. -/
  ordered : founds.Pairwise fun earlier later => later.place <:+ earlier.rest

section Passes

variable {text pending : Text} {found : Found Keyword} {founds more unclosed : List (Found Keyword)}
  {removed : List Removal} {removal : Removal}

/-- Keywords stay in order when the first one is passed. -/
theorem InOrder.tail (inOrder : InOrder text (found :: more)) : InOrder text more :=
  ⟨fun other mem => inOrder.places other (List.mem_cons_of_mem found mem),
    (List.pairwise_cons.1 inOrder.ordered).2⟩

/-- Later keywords lie behind the first one. -/
theorem InOrder.behind (inOrder : InOrder text (found :: more)) {later : Found Keyword}
    (mem : later ∈ more) : later.place.length < found.place.length := by
  have behind := ((List.pairwise_cons.1 inOrder.ordered).1 later mem).length_le
  have read := (inOrder.places found (List.mem_cons_self ..)).2
  have advances := ((keyword words.contains).advances read).length_lt
  omega

/-- A definition ends behind its keyword. -/
theorem InOrder.advances (inOrder : InOrder text founds) (mem : found ∈ founds) {wrapper : Wrapper}
    {rest : Text} (defines : Defines (behindStar found.value.after) wrapper rest) :
    found.place.Advances rest :=
  (keyword_advances (inOrder.places found mem).2).trans_suffix
    (defines.suffix.trans (behindStar_suffix _))

/-- Keywords come to something, whatever they are. -/
theorem exists_passes (pending : Text) (founds : List (Found Keyword)) :
    ∃ removed unclosed, Passes pending founds removed unclosed := by
  induction founds generalizing pending with
  | nil => exact ⟨[], [], .done pending⟩
  | cons found more ih =>
    by_cases inside : pending.length < found.place.length
    · obtain ⟨removed, unclosed, passes⟩ := ih pending
      exact ⟨removed, unclosed, .inside inside passes⟩
    rw [Nat.not_lt] at inside
    by_cases defines : ∃ wrapper rest, Defines (behindStar found.value.after) wrapper rest
    · obtain ⟨wrapper, rest, defines⟩ := defines
      obtain ⟨removed, unclosed, passes⟩ := ih rest
      exact ⟨_, unclosed, .removed inside defines passes⟩
    obtain ⟨removed, unclosed, passes⟩ := ih pending
    by_cases isUnclosed : Unclosed (behindStar found.value.after)
    · exact ⟨removed, _, .unclosed inside isUnclosed passes⟩
    · exact ⟨removed, unclosed, .absent inside
        (fun wrapper rest isDefined => defines ⟨wrapper, rest, isDefined⟩) isUnclosed passes⟩

/-- What is cut out are definitions at keywords. -/
theorem Passes.mem_removed (passes : Passes pending founds removed unclosed)
    (mem : removal ∈ removed) : removal.found ∈ founds ∧
      Defines (behindStar removal.found.value.after) removal.wrapper removal.rest := by
  induction passes with
  | done => cases mem
  | inside _ _ ih | absent _ _ _ _ ih | unclosed _ _ _ ih =>
    exact (ih mem).imp_left (List.mem_cons_of_mem _)
  | removed _ defines _ ih =>
    rcases List.mem_cons.1 mem with rfl | later
    · exact ⟨List.mem_cons_self .., defines⟩
    · exact (ih later).imp_left (List.mem_cons_of_mem _)

/-- What is never closed are some of the keywords, in their order. -/
theorem Passes.unclosed_sublist (passes : Passes pending founds removed unclosed) :
    unclosed.Sublist founds := by
  induction passes with
  | done => exact List.Sublist.slnil
  | inside _ _ ih | absent _ _ _ _ ih | removed _ _ _ ih => exact ih.cons _
  | unclosed _ _ _ ih => exact ih.cons_cons _

/-- A definition that is never closed is at an undecided place. -/
theorem Passes.mem_unclosed (passes : Passes pending founds removed unclosed)
    (inOrder : InOrder text founds) (mem : found ∈ unclosed) :
    found.place.length ≤ pending.length ∧ Unclosed (behindStar found.value.after) := by
  induction passes with
  | done => cases mem
  | inside _ _ ih | absent _ _ _ _ ih => exact ih inOrder.tail mem
  | unclosed undecided isUnclosed _ ih =>
    rcases List.mem_cons.1 mem with rfl | later
    · exact ⟨undecided, isUnclosed⟩
    · exact ih inOrder.tail later
  | removed undecided defines _ ih =>
    have shorter := (inOrder.advances (List.mem_cons_self ..) defines).length_lt
    have ⟨later, isUnclosed⟩ := ih inOrder.tail mem
    exact ⟨by omega, isUnclosed⟩

/-- A keyword at an undecided place is cut out, or never closed, or has no definition. -/
theorem Passes.cases_of_mem (passes : Passes pending founds removed unclosed)
    (inOrder : InOrder text founds) (mem : found ∈ founds)
    (undecided : found.place.length ≤ pending.length) :
    (∃ removal ∈ removed, removal.Covers found.place) ∨ found ∈ unclosed ∨
      (∀ wrapper rest, ¬Defines (behindStar found.value.after) wrapper rest) ∧
        ¬Unclosed (behindStar found.value.after) := by
  induction passes with
  | done => cases mem
  | inside isInside _ ih =>
    rcases List.mem_cons.1 mem with rfl | later
    · omega
    · exact ih inOrder.tail later undecided
  | absent _ undefined isClosed _ ih =>
    rcases List.mem_cons.1 mem with rfl | later
    · exact .inr (.inr ⟨undefined, isClosed⟩)
    · exact ih inOrder.tail later undecided
  | unclosed _ _ _ ih =>
    rcases List.mem_cons.1 mem with rfl | later
    · exact .inr (.inl (List.mem_cons_self ..))
    · exact (ih inOrder.tail later undecided).imp_right (.imp_left (List.mem_cons_of_mem _))
  | @removed _ rest _ _ _ _ _ _ defines _ ih =>
    have shorter := (inOrder.advances (List.mem_cons_self ..) defines).length_lt
    rcases List.mem_cons.1 mem with rfl | later
    · exact .inl ⟨_, List.mem_cons_self .., shorter, Nat.le_refl _⟩
    -- A later keyword stands in this definition or behind it.
    · rcases Nat.lt_or_ge rest.length found.place.length with inside | behind
      · exact .inl ⟨_, List.mem_cons_self .., inside, Nat.le_of_lt (inOrder.behind later)⟩
      · refine (ih inOrder.tail later behind).imp_left ?_
        rintro ⟨removal, isRemoved, covers⟩
        exact ⟨removal, List.mem_cons_of_mem _ isRemoved, covers⟩

/-- The keyword of a definition that is never closed overlaps nothing that is cut out. -/
theorem Passes.apart (passes : Passes pending founds removed unclosed)
    (inOrder : InOrder text founds) (mem : found ∈ unclosed) (isRemoved : removal ∈ removed) :
    found.place.length ≤ removal.rest.length ∨
      removal.found.place.length ≤ found.rest.length := by
  induction passes with
  | done => cases mem
  | inside _ _ ih | absent _ _ _ _ ih => exact ih inOrder.tail mem isRemoved
  | unclosed _ _ later ih =>
    rcases List.mem_cons.1 mem with rfl | isLater
    · have behind := (later.mem_removed isRemoved).1
      exact .inr ((List.pairwise_cons.1 inOrder.ordered).1 _ behind).length_le
    · exact ih inOrder.tail isLater isRemoved
  | removed _ _ later ih =>
    rcases List.mem_cons.1 isRemoved with rfl | isLater
    · exact .inl (later.mem_unclosed inOrder.tail mem).1
    · exact ih inOrder.tail mem isLater

/-- So it is not in anything that is cut out. -/
theorem Passes.not_covers (passes : Passes pending founds removed unclosed)
    (inOrder : InOrder text founds) (mem : found ∈ unclosed) (isRemoved : removal ∈ removed) :
    ¬removal.Covers found.place := by
  rintro ⟨inside, behind⟩
  have isFound := passes.unclosed_sublist.subset mem
  have advances := ((keyword words.contains).advances (inOrder.places found isFound).2).length_lt
  rcases passes.apart inOrder mem isRemoved with before | after <;> omega

/-- What is cut out of a text and what is never closed, and what is left of it. -/
structure Removes (text : Text) (removed : List Removal) (unclosed : List (Found Keyword))
    (left : Text) : Prop where
  /-- What is left is the text without the definitions, which do not overlap. -/
  left_without : Without text removed left
  /-- Each reaches from a keyword to the end of its closing code. -/
  defines : ∀ removal ∈ removed, removal.found ∈ keywords text ∧
    Defines (behindStar removal.found.value.after) removal.wrapper removal.rest
  /-- No other keyword has a definition, unless it stands in one of these. -/
  complete : ∀ found ∈ keywords text, (∀ removal ∈ removed, ¬removal.Covers found.place) →
    ∀ wrapper rest, ¬Defines (behindStar found.value.after) wrapper rest
  /-- What is never closed are keywords, in the order of the text. -/
  unclosed_sublist : unclosed.Sublist (keywords text)
  /-- These are the ones that stand in no definition and have a group that is never closed. -/
  unclosed_iff : ∀ found ∈ keywords text, found ∈ unclosed ↔
    (∀ removal ∈ removed, ¬removal.Covers found.place) ∧ Unclosed (behindStar found.value.after)
  /-- They are left in the text. -/
  apart : ∀ found ∈ unclosed, ∀ removal ∈ removed, found.place.length ≤ removal.rest.length ∨
    removal.found.place.length ≤ found.rest.length

/-- The keywords of a text are in its order. -/
theorem inOrder_keywords (text : Text) : InOrder text (keywords text) :=
  have ordered := (keyword words.contains).occurrences_ordered text
  ⟨ordered.1, ordered.2⟩

/-- This is what the keywords of a text come to from its start. -/
theorem Passes.removes {left : Text} (passes : Passes text (keywords text) removed unclosed)
    (without : Without text removed left) : Removes text removed unclosed left := by
  have inOrder := inOrder_keywords text
  have undecided : ∀ found ∈ keywords text, found.place.length ≤ text.length :=
    fun found mem => (inOrder.places found mem).1.length_le
  refine ⟨without, fun removal mem => passes.mem_removed mem, ?_, passes.unclosed_sublist, ?_,
    fun found isUnclosed removal isRemoved => passes.apart inOrder isUnclosed isRemoved⟩
  · intro found mem outside wrapper rest defines
    rcases passes.cases_of_mem inOrder mem (undecided found mem) with
      ⟨removal, isRemoved, covers⟩ | isUnclosed | ⟨undefined, -⟩
    · exact outside removal isRemoved covers
    · exact defines.not_unclosed (passes.mem_unclosed inOrder isUnclosed).2
    · exact undefined wrapper rest defines
  · intro found mem
    constructor
    · exact fun isUnclosed => ⟨fun removal isRemoved =>
        passes.not_covers inOrder isUnclosed isRemoved, (passes.mem_unclosed inOrder isUnclosed).2⟩
    · rintro ⟨outside, isUnclosed⟩
      rcases passes.cases_of_mem inOrder mem (undecided found mem) with
        ⟨removal, isRemoved, covers⟩ | known | ⟨-, isClosed⟩
      · exact absurd covers (outside removal isRemoved)
      · exact known
      · exact absurd isUnclosed isClosed

end Passes

end Wrapper

namespace WrapperRemoval

open Wrapper

variable {text pending : Text} {founds unclosed : List (Found Keyword)} {removed : List Removal}

/-- The warnings of definitions that are never closed, among others. -/
def unterminated (warnings : List Warning) : List Warning :=
  warnings.filter fun warning => warning.kind = .unterminatedDefinition

/-- Warnings in a row, of them. -/
theorem unterminated_append (warnings more : List Warning) :
    unterminated (warnings ++ more) = unterminated warnings ++ unterminated more :=
  List.filter_append ..

/-- Entering a wrapper does not warn of a definition that is never closed. -/
theorem unterminated_enter (wrapper : Wrapper) (table : DeclarationTable) :
    unterminated (wrapper.enter table).2 = [] := by
  unfold Wrapper.enter DeclarationTable.declare unterminated
  split
  · split
    · rfl
    · split
      · rfl
      · split <;> rfl
  · rfl

section Step

variable {state : WrapperRemoval} {found : Found Keyword}

/-- A keyword at a decided place changes nothing. -/
theorem step_of_inside (inside : state.pending.length < found.place.length) :
    state.step found = state := if_pos inside

/-- A keyword without a definition changes nothing. -/
theorem step_of_absent (undecided : found.place.length ≤ state.pending.length)
    (undefined : ∀ wrapper rest, ¬Defines (behindStar found.value.after) wrapper rest)
    (isClosed : ¬Unclosed (behindStar found.value.after)) : state.step found = state := by
  rw [step, if_neg (Nat.not_lt.2 undecided)]
  cases read : WrapperReading.ofText (behindStar found.value.after) with
  | absent => rfl
  | unterminated => exact absurd (ofText_eq_unterminated_iff.1 read) isClosed
  | found wrapper rest => exact absurd (ofText_eq_found_iff.1 read) (undefined wrapper rest)

/-- A definition that is never closed is warned of. -/
theorem step_of_unclosed (undecided : found.place.length ≤ state.pending.length)
    (isUnclosed : Unclosed (behindStar found.value.after)) :
    state.step found = { state with
      warnings := state.warnings ++ [.unclosedEnvironmentDefinition found.place.excerpt] } := by
  rw [step, if_neg (Nat.not_lt.2 undecided), ofText_eq_unterminated_iff.2 isUnclosed]

/-- What is before a definition is copied, and its wrapper is entered. -/
theorem step_of_defines (undecided : found.place.length ≤ state.pending.length)
    {wrapper : Wrapper} {rest : Text}
    (defines : Defines (behindStar found.value.after) wrapper rest) :
    state.step found =
      { pending := rest
        copied := state.pending.before found.place :: state.copied
        table := (wrapper.enter state.table).1
        warnings := state.warnings ++ (wrapper.enter state.table).2 } := by
  rw [step, if_neg (Nat.not_lt.2 undecided), ofText_eq_found_iff.2 defines]

end Step

/-- The wrappers that are cut out are entered in their order. -/
theorem table_foldl_step (passes : Passes pending founds removed unclosed) {state : WrapperRemoval}
    (same : state.pending = pending) :
    (founds.foldl step state).table = state.table.after (removed.map (·.wrapper)) := by
  induction passes generalizing state with
  | done => rfl
  | inside isInside _ ih =>
    rw [List.foldl_cons, step_of_inside (same ▸ isInside), ih same]
  | absent undecided undefined isClosed _ ih =>
    rw [List.foldl_cons, step_of_absent (same ▸ undecided) undefined isClosed, ih same]
  | unclosed undecided isUnclosed _ ih =>
    rw [List.foldl_cons, step_of_unclosed (same ▸ undecided) isUnclosed]
    exact ih same
  | removed undecided defines _ ih =>
    rw [List.foldl_cons, step_of_defines (same ▸ undecided) defines]
    exact ih rfl

/-- Each definition that is never closed is warned of once, in order. -/
theorem unterminated_foldl_step (passes : Passes pending founds removed unclosed)
    {state : WrapperRemoval} (same : state.pending = pending) :
    unterminated (founds.foldl step state).warnings = unterminated state.warnings ++
      unclosed.map fun found => .unclosedEnvironmentDefinition found.place.excerpt := by
  induction passes generalizing state with
  | done => exact (List.append_nil _).symm
  | inside isInside _ ih =>
    rw [List.foldl_cons, step_of_inside (same ▸ isInside), ih same]
  | absent undecided undefined isClosed _ ih =>
    rw [List.foldl_cons, step_of_absent (same ▸ undecided) undefined isClosed, ih same]
  | unclosed undecided isUnclosed _ ih =>
    have step := step_of_unclosed (same ▸ undecided) isUnclosed
    have later := (congrArg WrapperRemoval.pending step).trans same
    rw [List.foldl_cons, ih later, step, unterminated_append, List.append_assoc]
    rfl
  | removed undecided defines _ ih =>
    have step := step_of_defines (same ▸ undecided) defines
    have later := congrArg WrapperRemoval.pending step
    rw [List.foldl_cons, ih later, step, unterminated_append, unterminated_enter, List.append_nil]

/-- Behind what was copied, what is left of the undecided text is copied. -/
theorem text_foldl_step (passes : Passes pending founds removed unclosed)
    (inOrder : InOrder text founds) {state : WrapperRemoval} (same : state.pending = pending)
    (within : pending <:+ text) :
    ∃ left, Without pending removed left ∧
      (founds.foldl step state).copied.reverse.flatten ++ (founds.foldl step state).pending =
        state.copied.reverse.flatten ++ left := by
  induction passes generalizing state with
  | done pending => exact ⟨pending, .rest pending, by rw [List.foldl_nil, same]⟩
  | inside isInside _ ih =>
    rw [List.foldl_cons, step_of_inside (same ▸ isInside)]
    exact ih inOrder.tail same within
  | absent undecided undefined isClosed _ ih =>
    rw [List.foldl_cons, step_of_absent (same ▸ undecided) undefined isClosed]
    exact ih inOrder.tail same within
  | unclosed undecided isUnclosed _ ih =>
    rw [List.foldl_cons, step_of_unclosed (same ▸ undecided) isUnclosed]
    exact ih inOrder.tail same within
  | @removed pending rest found _ _ _ wrapper undecided defines _ ih =>
    have advances := inOrder.advances (List.mem_cons_self ..) defines
    have place := (inOrder.places found (List.mem_cons_self ..)).1
    obtain ⟨kept, rfl⟩ := List.suffix_of_suffix_length_le place within undecided
    have step := step_of_defines (same ▸ undecided) defines
    have later : (state.step found).pending = rest := congrArg WrapperRemoval.pending step
    obtain ⟨left, without, whole⟩ := ih inOrder.tail later (advances.suffix.trans place)
    refine ⟨kept ++ left, .cut kept ⟨found, wrapper, rest⟩ advances without, ?_⟩
    rw [List.foldl_cons, whole, step, same, Text.before_append, List.reverse_cons,
      List.flatten_append, List.flatten_singleton, List.append_assoc]

end WrapperRemoval

namespace DeclarationTable

open Wrapper

end DeclarationTable
end TexStatements
