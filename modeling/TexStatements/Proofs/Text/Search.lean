import TexStatements.ControlSequence

/-!
# Searching joined texts

A text is searched piece by piece when no reader finds anything across the end of a piece. Most
readers of the library succeed at a backslash only, so a piece that starts with its only backslash
is passed over as soon as the reader fails at its start. Where a reader also looks no further than
to the next backslash, what it finds in a piece does not depend on the pieces behind it.
-/
namespace TexStatements

section Runs

variable {α : Type} {accepts : α → Bool} {run rest : List α}

/-- A run ends at the latest where a list starts that does not continue it. -/
theorem takeWhile_append_of_stop (front : List α)
    (stops : ∀ first ∈ rest.head?, accepts first = false) :
    (front ++ rest).takeWhile accepts = front.takeWhile accepts := by
  induction front with
  | nil =>
    cases rest with
    | nil => rfl
    | cons first tail => exact List.takeWhile_cons_of_neg (by simp [stops first rfl])
  | cons first front ih => simp only [List.cons_append, List.takeWhile_cons, ih]

/-- What follows a run goes on to a list that does not continue it. -/
theorem dropWhile_append_of_stop (front : List α)
    (stops : ∀ first ∈ rest.head?, accepts first = false) :
    (front ++ rest).dropWhile accepts = front.dropWhile accepts ++ rest := by
  induction front with
  | nil =>
    cases rest with
    | nil => rfl
    | cons first tail => exact List.dropWhile_cons_of_neg (by simp [stops first rfl])
  | cons first front ih =>
    simp only [List.cons_append, List.dropWhile_cons, ih]
    split <;> rfl

/-- A run is read up to a list that does not continue it. -/
theorem takeWhile_run (accepted : ∀ element ∈ run, accepts element = true)
    (stops : ∀ first ∈ rest.head?, accepts first = false) :
    (run ++ rest).takeWhile accepts = run := by
  have whole : (run ++ []).takeWhile accepts = run ++ [].takeWhile accepts :=
    List.takeWhile_append_of_pos accepted
  rw [takeWhile_append_of_stop run stops]
  simpa using whole

/-- What follows a run is the list that does not continue it. -/
theorem dropWhile_run (accepted : ∀ element ∈ run, accepts element = true)
    (stops : ∀ first ∈ rest.head?, accepts first = false) :
    (run ++ rest).dropWhile accepts = rest := by
  have whole : (run ++ []).dropWhile accepts = [].dropWhile accepts :=
    List.dropWhile_append_of_pos accepted
  rw [dropWhile_append_of_stop run stops]
  simpa using whole

end Runs

namespace Text

/-- A place that nothing read before it runs across: the end of a text, or a backslash. -/
def AtCommand (text : Text) : Prop := ∀ first ∈ text.head?, first = '\\'

/-- The end of a text is such a place. -/
@[simp] theorem atCommand_nil : AtCommand [] := by simp [AtCommand]

/-- So is a backslash. -/
@[simp] theorem atCommand_backslash (tail : Text) : AtCommand ('\\' :: tail) := by
  simp [AtCommand]

/-- A text in front of a place where a command starts or the text ends is such a place too, if it
starts a command itself. -/
theorem atCommand_append {front rest : Text} (starts : AtCommand front)
    (continues : AtCommand rest) : AtCommand (front ++ rest) := by
  cases front with
  | nil => exact continues
  | cons first tail => simpa [AtCommand] using starts

/-- A character divides a text in one way only if it does not occur before the place. -/
theorem append_stop_inj {stop : Char} {front other rest tail : Text} (absent : stop ∉ front)
    (absentOther : stop ∉ other) (same : front ++ stop :: rest = other ++ stop :: tail) :
    front = other ∧ rest = tail := by
  induction front generalizing other with
  | nil =>
    cases other with
    | nil => exact ⟨rfl, (List.cons.inj same).2⟩
    | cons first other => exact absurd (List.mem_cons.2 (.inl (List.cons.inj same).1)) absentOther
  | cons first front ih =>
    cases other with
    | nil => exact absurd (List.mem_cons.2 (.inl (List.cons.inj same).1.symm)) absent
    | cons second other =>
      obtain ⟨rfl, later⟩ := List.cons.inj same
      rw [List.mem_cons, not_or] at absent absentOther
      obtain ⟨rfl, rfl⟩ := ih absent.2 absentOther.2 later
      exact ⟨rfl, rfl⟩

/-- A text that is not empty takes some bytes. -/
theorem byteLength_pos {text : Text} (nonempty : text ≠ []) : 0 < byteLength text := by
  cases text with
  | nil => exact absurd rfl nonempty
  | cons first tail => exact Nat.add_pos_left first.utf8Size_pos _

/-- A suffix has no more bytes than the text. -/
theorem byteLength_le_of_suffix {text rest : Text} (suffix : rest <:+ text) :
    byteLength rest ≤ byteLength text := by
  obtain ⟨front, rfl⟩ := suffix
  rw [byteLength_append]
  exact Nat.le_add_left _ _

section Cut

variable {literal text front after before rest : Text}

/-- The first occurrence of a fixed text has no more before it than any other. -/
theorem front_of_cut? (found : cut? literal text = some (front, after))
    (whole : text = before ++ (literal ++ rest)) : front <+: before := by
  induction text generalizing front before with
  | nil =>
    simp only [cut?, Option.map_eq_some_iff, Prod.mk.injEq] at found
    obtain ⟨-, -, rfl, -⟩ := found
    exact List.nil_prefix
  | cons first tail ih =>
    rw [cut?] at found
    split at found
    · cases found
      exact List.nil_prefix
    · rename_i absent
      obtain ⟨⟨inner, behind⟩, inside, same⟩ := Option.map_eq_some_iff.1 found
      cases same
      cases before with
      | nil =>
        have dropped : dropLiteral? literal (first :: tail) = some rest :=
          dropLiteral?_eq_some_iff.2 whole
        rw [dropped] at absent
        cases absent
      | cons other before =>
        obtain ⟨rfl, later⟩ := List.cons.inj whole
        exact List.cons_prefix_cons.2 ⟨rfl, ih inside later⟩

/-- What comes before the first occurrence of a fixed text has no occurrence in it. -/
theorem not_infix_of_cut? (nonempty : literal ≠ [])
    (found : cut? literal text = some (front, after)) : ¬ literal <:+: front := by
  rintro ⟨before, between, whole⟩
  have again : text = before ++ (literal ++ (between ++ (literal ++ after))) := by
    rw [cut?_eq_append found, ← whole]
    simp
  have shorter := (front_of_cut? found again).length_le
  have positive := List.length_pos_iff.2 nonempty
  rw [← whole] at shorter
  simp only [List.length_append] at shorter
  omega

/-- A fixed text is not found exactly where it does not occur. -/
theorem cut?_eq_none_iff : cut? literal text = none ↔ ¬ literal <:+: text := by
  constructor
  · rintro absent ⟨before, behind, whole⟩
    induction text generalizing before with
    | nil =>
      have empty : literal = [] := by simp_all
      subst empty
      cases absent
    | cons first tail ih =>
      rw [cut?] at absent
      split at absent
      · cases absent
      · rename_i undropped
        cases before with
        | nil =>
          have dropped : dropLiteral? literal (first :: tail) = some behind :=
            dropLiteral?_eq_some_iff.2 whole.symm
          rw [dropped] at undropped
          cases undropped
        | cons other before =>
          exact ih (Option.map_eq_none_iff.1 absent) before (List.cons.inj whole).2
  · intro absent
    cases found : cut? literal text with
    | none => rfl
    | some place =>
      exact absurd ⟨place.1, place.2, (cut?_eq_append found).symm⟩ absent

/-- A text is cut at a character where it occurs first. -/
theorem cut?_of_not_mem {stop : Char} (absent : stop ∉ front) (rest : Text) :
    cut? [stop] (front ++ stop :: rest) = some (front, rest) := by
  induction front with
  | nil => simp [cut?, dropLiteral?]
  | cons first front ih =>
    rw [List.mem_cons, not_or] at absent
    simp [cut?, dropLiteral?, absent.1, ih absent.2]

end Cut

end Text

/-- A place that is found, with more text behind it. -/
def Found.before {α : Type} (found : Found α) (rest : Text) : Found α :=
  ⟨found.place ++ rest, found.value, found.rest ++ rest⟩

namespace Reader

variable {α β : Type}

/-- Places that are found in a text are places of it, where the reader succeeds, and each lies
behind what was read at those before. -/
theorem occurrences_ordered (reader : Reader α) (text : Text) :
    (∀ found ∈ reader.occurrences text,
      found.place <:+ text ∧ reader.read found.place = some (found.value, found.rest)) ∧
    (reader.occurrences text).Pairwise fun earlier later => later.place <:+ earlier.rest := by
  fun_induction reader.occurrences text with
  | case1 => simp
  | case2 first tail value rest read ih =>
    have behind : rest <:+ first :: tail := (reader.advances read).suffix
    refine ⟨?_, List.pairwise_cons.2 ⟨fun later mem => (ih.1 later mem).1, ih.2⟩⟩
    intro found mem
    rcases List.mem_cons.1 mem with rfl | isLater
    · exact ⟨List.suffix_refl _, read⟩
    · exact ⟨(ih.1 found isLater).1.trans behind, (ih.1 found isLater).2⟩
  | case3 first tail unread ih =>
    refine ⟨fun found mem => ?_, ih.2⟩
    exact ⟨(ih.1 found mem).1.trans (List.suffix_cons first tail), (ih.1 found mem).2⟩

/-- No place is found twice. -/
theorem nodup_occurrences (reader : Reader α) (text : Text) : (reader.occurrences text).Nodup := by
  obtain ⟨places, ordered⟩ := reader.occurrences_ordered text
  refine ordered.imp_of_mem fun {earlier later} mem _ behind same => ?_
  subst same
  have longer := (reader.advances (places earlier mem).2).length_lt
  exact absurd behind.length_le (by omega)

/-- At one place one thing is found. -/
theorem value_eq_of_place_eq {reader : Reader α} {text : Text} {found other : Found α}
    (mem : found ∈ reader.occurrences text) (otherMem : other ∈ reader.occurrences text)
    (same : found.place = other.place) : found.value = other.value := by
  have read := ((reader.occurrences_ordered text).1 found mem).2
  have otherRead := ((reader.occurrences_ordered text).1 other otherMem).2
  rw [same, otherRead] at read
  exact (congrArg Prod.fst (Option.some.inj read)).symm

/-- The characters of a replaced text are those of the text and of the replacements. -/
theorem mem_replaceAll {reader : Reader α} {replacement : α → Text} {text : Text} {c : Char}
    (mem : c ∈ reader.replaceAll replacement text) :
    c ∈ text ∨ ∃ value, c ∈ replacement value := by
  fun_induction reader.replaceAll replacement text with
  | case1 => exact .inl mem
  | case2 first tail value rest read ih =>
    rcases List.mem_append.1 mem with replaced | later
    · exact .inr ⟨value, replaced⟩
    · exact (ih later).imp_left fun inRest => (reader.advances read).suffix.subset inRest
  | case3 first tail unread ih =>
    rcases List.mem_cons.1 mem with rfl | later
    · exact .inl (List.mem_cons_self ..)
    · exact (ih later).imp_left (List.mem_cons_of_mem first)

/-- No success at any place of a front that the rest of the text follows. -/
def SilentOver (reader : Reader α) (front rest : Text) : Prop :=
  ∀ place, place <:+ front → place ≠ [] → reader.read (place ++ rest) = none

/-- Nothing is found in an empty front. -/
@[simp] theorem silentOver_nil (reader : Reader α) (rest : Text) :
    reader.SilentOver [] rest := by
  intro place suffix nonempty
  exact absurd (List.suffix_nil.1 suffix) nonempty

/-- A front is passed over if its first place and the others are. -/
theorem silentOver_cons {reader : Reader α} {first : Char} {front rest : Text} :
    reader.SilentOver (first :: front) rest ↔
      reader.read (first :: (front ++ rest)) = none ∧ reader.SilentOver front rest := by
  constructor
  · intro silent
    refine ⟨silent (first :: front) (List.suffix_refl _) (List.cons_ne_nil _ _), ?_⟩
    intro place suffix nonempty
    exact silent place (suffix.trans (List.suffix_cons first front)) nonempty
  · rintro ⟨start, silent⟩ place suffix nonempty
    obtain rfl | inside := List.suffix_cons_iff.1 suffix
    · exact start
    · exact silent place inside nonempty

/-- Two fronts in a row are passed over if each of them is. -/
theorem SilentOver.append {reader : Reader α} {front middle rest : Text}
    (first : reader.SilentOver front (middle ++ rest)) (second : reader.SilentOver middle rest) :
    reader.SilentOver (front ++ middle) rest := by
  induction front with
  | nil => exact second
  | cons character front ih =>
    obtain ⟨start, silent⟩ := silentOver_cons.1 first
    rw [List.cons_append, silentOver_cons, List.append_assoc]
    exact ⟨start, ih silent⟩

/-- The occurrences behind a front that is passed over are all occurrences. -/
theorem occurrences_append {reader : Reader α} {front rest : Text}
    (silent : reader.SilentOver front rest) :
    reader.occurrences (front ++ rest) = reader.occurrences rest := by
  induction front with
  | nil => rfl
  | cons first front ih =>
    obtain ⟨start, later⟩ := silentOver_cons.1 silent
    rw [List.cons_append, occurrences]
    split
    · rename_i value tail read
      rw [start] at read
      cases read
    · exact ih later

/-- A front that is passed over is kept. -/
theorem replaceAll_append {reader : Reader α} {front rest : Text} (replacement : α → Text)
    (silent : reader.SilentOver front rest) :
    reader.replaceAll replacement (front ++ rest) =
      front ++ reader.replaceAll replacement rest := by
  induction front with
  | nil => rfl
  | cons first front ih =>
    obtain ⟨start, later⟩ := silentOver_cons.1 silent
    rw [List.cons_append, replaceAll]
    split
    · rename_i value tail read
      rw [start] at read
      cases read
    · rw [ih later, List.cons_append]

/-- The first place behind a front that is passed over is the first place. -/
theorem find?_append {reader : Reader α} {front rest : Text}
    (silent : reader.SilentOver front rest) :
    reader.find? (front ++ rest) =
      (reader.find? rest).map fun (before, found) => (front ++ before, found) := by
  induction front with
  | nil => simp
  | cons first front ih =>
    obtain ⟨start, later⟩ := silentOver_cons.1 silent
    rw [List.cons_append, find?, start]
    simp only [ih later, Option.map_map, Function.comp_def, List.cons_append]

/-- Nothing occurs in a text that is passed over to its end. -/
theorem occurrences_of_silent {reader : Reader α} {text : Text}
    (silent : reader.SilentOver text []) : reader.occurrences text = [] := by
  have passed := occurrences_append silent
  rwa [List.append_nil, occurrences] at passed

/-- A text that is passed over to its end is kept. -/
theorem replaceAll_of_silent {reader : Reader α} {text : Text} (replacement : α → Text)
    (silent : reader.SilentOver text []) : reader.replaceAll replacement text = text := by
  have passed := replaceAll_append replacement silent
  rwa [replaceAll, List.append_nil] at passed

/-- Nothing is found in a text that is passed over to its end. -/
theorem find?_of_silent {reader : Reader α} {text : Text}
    (silent : reader.SilentOver text []) : reader.find? text = none := by
  have passed := find?_append silent
  rwa [List.append_nil] at passed

/-- What is read at the start of a text occurs first. -/
theorem occurrences_of_read {reader : Reader α} {text rest : Text} {value : α}
    (read : reader.read text = some (value, rest)) :
    reader.occurrences text = ⟨text, value, rest⟩ :: reader.occurrences rest := by
  obtain ⟨first, tail, rfl, -⟩ := reader.advances read
  rw [occurrences]
  split
  · rename_i again
    rw [read] at again
    cases again
    rfl
  · rename_i failed
    rw [read] at failed
    cases failed

/-- What is read at the start of a text is replaced. -/
theorem replaceAll_of_read {reader : Reader α} {text rest : Text} {value : α}
    (replacement : α → Text) (read : reader.read text = some (value, rest)) :
    reader.replaceAll replacement text =
      replacement value ++ reader.replaceAll replacement rest := by
  obtain ⟨first, tail, rfl, -⟩ := reader.advances read
  rw [replaceAll]
  split
  · rename_i again
    rw [read] at again
    cases again
    rfl
  · rename_i failed
    rw [read] at failed
    cases failed

/-- A character at which nothing is read is kept. -/
theorem replaceAll_of_unread {reader : Reader α} {first : Char} {tail : Text}
    (replacement : α → Text) (unread : reader.read (first :: tail) = none) :
    reader.replaceAll replacement (first :: tail) =
      first :: reader.replaceAll replacement tail :=
  replaceAll_append replacement (silentOver_cons.2 ⟨unread, silentOver_nil reader tail⟩)

/-- A replaced text depends on the replacements of what occurs in the text. -/
theorem replaceAll_congr {reader : Reader α} {text : Text} {replacement other : α → Text}
    (same : ∀ found ∈ reader.occurrences text, replacement found.value = other found.value) :
    reader.replaceAll replacement text = reader.replaceAll other text := by
  fun_induction reader.replaceAll replacement text with
  | case1 => rw [replaceAll]
  | case2 first tail value rest read ih =>
    rw [occurrences_of_read read, List.forall_mem_cons] at same
    rw [replaceAll_of_read other read, same.1, ih same.2]
  | case3 first tail unread ih =>
    have passed : reader.SilentOver [first] tail :=
      silentOver_cons.2 ⟨unread, silentOver_nil reader tail⟩
    have later := occurrences_append passed
    rw [List.singleton_append] at later
    rw [replaceAll_of_unread other unread, ih (later ▸ same)]

/-- What is read at the start of a text is found first. -/
theorem find?_of_read {reader : Reader α} {text rest : Text} {value : α}
    (read : reader.read text = some (value, rest)) :
    reader.find? text = some ([], ⟨text, value, rest⟩) := by
  obtain ⟨first, tail, rfl, -⟩ := reader.advances read
  rw [find?, read]

/-- Success at a backslash only. -/
def ReadsCommands (reader : Reader α) : Prop :=
  ∀ first tail, first ≠ '\\' → reader.read (first :: tail) = none

/-- A text without a backslash is passed over. -/
theorem ReadsCommands.silentOver {reader : Reader α} (commands : reader.ReadsCommands)
    {front : Text} (rest : Text) (free : '\\' ∉ front) : reader.SilentOver front rest := by
  induction front with
  | nil => exact silentOver_nil reader rest
  | cons first front ih =>
    rw [List.mem_cons, not_or] at free
    exact silentOver_cons.2 ⟨commands first _ (Ne.symm free.1), ih free.2⟩

/-- A command with nothing but its own backslash is passed over if it is not read. -/
theorem ReadsCommands.silentOver_command {reader : Reader α} (commands : reader.ReadsCommands)
    {after rest : Text} (free : '\\' ∉ after)
    (unread : reader.read ('\\' :: (after ++ rest)) = none) :
    reader.SilentOver ('\\' :: after) rest :=
  silentOver_cons.2 ⟨unread, commands.silentOver rest free⟩

/-- What is read in front of a command does not depend on the command. -/
def Local (reader : Reader α) : Prop :=
  ∀ text rest, text ≠ [] → rest.AtCommand →
    reader.read (text ++ rest) = (reader.read text).map fun (value, after) => (value, after ++ rest)

/-- A front in which a reader that is local finds nothing is passed over. -/
theorem Local.silentOver {reader : Reader α} (isLocal : reader.Local) {front rest : Text}
    (starts : rest.AtCommand) (absent : reader.find? front = none) :
    reader.SilentOver front rest := by
  induction front with
  | nil => exact silentOver_nil reader rest
  | cons first front ih =>
    rw [find?] at absent
    split at absent
    · cases absent
    · rename_i unread
      refine silentOver_cons.2 ⟨?_, ih (Option.map_eq_none_iff.1 absent)⟩
      rw [← List.cons_append, isLocal (first :: front) rest (List.cons_ne_nil _ _) starts, unread]
      rfl

/-- The first place that a reader that is local finds in a front is the first place, whatever
command follows. -/
theorem Local.find?_append_of_some {reader : Reader α} (isLocal : reader.Local)
    {front rest before : Text} {found : Found α} (starts : rest.AtCommand)
    (present : reader.find? front = some (before, found)) :
    reader.find? (front ++ rest) =
      some (before, ⟨found.place ++ rest, found.value, found.rest ++ rest⟩) := by
  induction front generalizing before with
  | nil => cases present
  | cons first front ih =>
    have read := isLocal (first :: front) rest (List.cons_ne_nil _ _) starts
    rw [find?] at present
    split at present
    · rename_i value after here
      cases present
      rw [here] at read
      exact find?_of_read read
    · rename_i unread
      obtain ⟨⟨inner, place⟩, inside, same⟩ := Option.map_eq_some_iff.1 present
      cases same
      rw [unread] at read
      rw [List.cons_append, find?, ← List.cons_append, read]
      simp [ih inside]

/-- What is read starts with a backslash. -/
theorem ReadsCommands.atCommand {reader : Reader α} (commands : reader.ReadsCommands)
    {place rest : Text} {value : α} (read : reader.read place = some (value, rest)) :
    place.AtCommand := by
  obtain ⟨first, tail, rfl, -⟩ := reader.advances read
  by_cases same : first = '\\'
  · rw [same]
    exact Text.atCommand_backslash tail
  · rw [commands first tail same] at read
    cases read

/-- If what is read in a front does not depend on the text behind it, the front is searched by
itself. -/
theorem occurrences_append_of_reads {reader : Reader α} {front rest : Text}
    (reads : ∀ place, place <:+ front → place ≠ [] →
      reader.read (place ++ rest) = (reader.read place).map fun (value, after) =>
        (value, after ++ rest)) :
    reader.occurrences (front ++ rest) =
      (reader.occurrences front).map (·.before rest) ++ reader.occurrences rest := by
  fun_induction reader.occurrences front with
  | case1 => rfl
  | case2 first tail value after read ih =>
    have further := reads _ (List.suffix_refl _) (List.cons_ne_nil _ _)
    rw [read] at further
    have behind := (reader.advances read).suffix
    rw [occurrences_of_read further, ih fun place suffix => reads place (suffix.trans behind)]
    rfl
  | case3 first tail unread ih =>
    have further := reads _ (List.suffix_refl _) (List.cons_ne_nil _ _)
    rw [unread] at further
    have single : reader.SilentOver [first] (tail ++ rest) :=
      silentOver_cons.2 ⟨further, silentOver_nil _ _⟩
    exact (Reader.occurrences_append single).trans
      (ih fun place suffix => reads place (suffix.trans (List.suffix_cons first tail)))

/-- In front of a command a reader that is local finds what it finds without it. -/
theorem Local.occurrences_append {reader : Reader α} (isLocal : reader.Local)
    {front rest : Text} (starts : rest.AtCommand) :
    reader.occurrences (front ++ rest) =
      (reader.occurrences front).map (·.before rest) ++ reader.occurrences rest :=
  occurrences_append_of_reads fun place _ nonempty => isLocal place rest nonempty starts

/-- A fixed text that starts with a backslash is read at a backslash only. -/
theorem literal_readsCommands (word : Text) :
    (literal ('\\' :: word) (List.cons_ne_nil _ _)).ReadsCommands := by
  intro first tail other
  simp [literal, Text.dropLiteral?, Ne.symm other]

/-- A control word is read up to the first character that is no letter. -/
theorem controlWord_read (accepts : Text → Bool) {word rest : Text}
    (letters : ∀ letter ∈ word, isControlLetter letter = true)
    (stops : ∀ first ∈ rest.head?, isControlLetter first = false) :
    (controlWord accepts).read ('\\' :: (word ++ rest)) =
      if accepts word then some (word, rest) else none := by
  simp only [controlWord, takeWhile_run letters stops, dropWhile_run letters stops]

/-- Control words are read at a backslash only. -/
theorem controlWord_readsCommands (accepts : Text → Bool) :
    (controlWord accepts).ReadsCommands := by
  intro first tail other
  simp only [controlWord]
  split
  · rename_i same
    cases same
    exact absurd rfl other
  · rfl

/-- A fixed text with one backslash, at its start, is read regardless of a command that follows. -/
theorem literal_local {word : Text} (free : '\\' ∉ word) :
    (literal ('\\' :: word) (List.cons_ne_nil _ _)).Local := by
  have plain : ∀ (word text rest : Text), '\\' ∉ word → rest.AtCommand →
      Text.dropLiteral? word (text ++ rest) =
        (Text.dropLiteral? word text).map fun after => after ++ rest := by
    intro word
    induction word with
    | nil => intro text rest _ _; rfl
    | cons expected word ih =>
      intro text rest free starts
      rw [List.mem_cons, not_or] at free
      cases text with
      | nil =>
        cases rest with
        | nil => rfl
        | cons first tail =>
          have same : first = '\\' := starts first rfl
          simp [Text.dropLiteral?, same, Ne.symm free.1]
      | cons first tail =>
        by_cases same : expected = first
        · simp [Text.dropLiteral?, same, ih tail rest free.2 starts]
        · simp [Text.dropLiteral?, same]
  intro text rest nonempty starts
  cases text with
  | nil => exact absurd rfl nonempty
  | cons first tail =>
    by_cases same : first = '\\'
    · subst same
      simp only [literal, List.cons_append, Text.dropLiteral?, if_true]
      rw [plain word tail rest free starts]
      simp [Function.comp_def]
    · rw [List.cons_append, literal_readsCommands word first _ same,
        literal_readsCommands word first _ same]
      rfl

/-- A control word ends where the next command starts. -/
theorem controlWord_local (accepts : Text → Bool) : (controlWord accepts).Local := by
  intro text rest nonempty starts
  cases text with
  | nil => exact absurd rfl nonempty
  | cons first tail =>
    by_cases same : first = '\\'
    · subst same
      have ends : ∀ first ∈ rest.head?, isControlLetter first = false := by
        intro first isFirst
        rw [starts first isFirst]
        decide
      simp only [controlWord, List.cons_append, takeWhile_append_of_stop tail ends,
        dropWhile_append_of_stop tail ends]
      split <;> rfl
    · rw [List.cons_append, controlWord_readsCommands accepts first _ same,
        controlWord_readsCommands accepts first _ same]
      rfl

end Reader
end TexStatements
