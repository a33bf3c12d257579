import TexStatements.Proofs.Statement.Scan

/-!
# The appendix in an outline

What starts the appendix stands between the tags of an outline, so the environments opened before
it are the same in every spelling of the outline, although its offset is not.
-/
namespace TexStatements
namespace Outline

open Environment

variable {α : Type}

/-- A reader that passes over every tag of a spelling. -/
def PassesTags (reader : Reader α) (rename : End → Text → Text) (outline : Outline) : Prop :=
  ∀ part, ∀ name ∈ outline.names, ∀ rest, reader.SilentOver (End.tag part (rename part name)) rest

/-- A reader passes over the tags inside and behind an environment if it does in the outline. -/
theorem PassesTags.parts {reader : Reader α} {rename : End → Text → Text} {front name : Text}
    {inside after : Outline}
    (passes : PassesTags reader rename (environment front name inside after)) :
    (∀ part rest, reader.SilentOver (End.tag part (rename part name)) rest) ∧
      PassesTags reader rename inside ∧ PassesTags reader rename after := by
  refine ⟨fun part => passes part name (List.mem_cons_self ..), ?_, ?_⟩
  · intro part other occurs
    exact passes part other (List.mem_cons_of_mem _ (List.mem_append_left _ occurs))
  · intro part other occurs
    exact passes part other (List.mem_cons_of_mem _ (List.mem_append_right _ occurs))

/-- A reader that finds nothing between the tags passes over the outline. -/
theorem silentOver_of_absent {reader : Reader α} (isLocal : reader.Local)
    {rename : End → Text → Text} {outline : Outline} {tail : Text}
    (absent : outline.Between fun text => reader.find? text = none)
    (passes : PassesTags reader rename outline) (starts : tail.AtCommand) :
    reader.SilentOver (outline.spell rename) tail :=
  silentOver_spell (absent.mono fun _ nothing _ atCommand => isLocal.silentOver atCommand nothing)
    passes starts

/-- The first place that a reader finds in a spelling of an outline, which starts at an offset and
has a tail, comes behind a number of opening tags. -/
def FoundBehind (reader : Reader α) (rename : End → Text → Text) (start : Nat) (outline : Outline)
    (tail : Text) (count : Nat) : Prop :=
  ∃ front found, reader.find? (outline.spell rename ++ tail) = some (front, found) ∧
    front.byteLength < (outline.spell rename).byteLength ∧
    (outline.startsFrom rename start).countP (· < start + front.byteLength) = count

/-- A place that is found has something before the end of the text. -/
theorem byteLength_lt_of_find? {reader : Reader α} {text front : Text} {found : Found α}
    (success : reader.find? text = some (front, found)) : front.byteLength < text.byteLength := by
  obtain ⟨rfl, advances⟩ := Reader.find?_eq_some success
  obtain ⟨first, tail, place, -⟩ := advances
  have positive := first.utf8Size_pos
  rw [place, Text.byteLength_append, Text.byteLength_cons]
  omega

/-- None of the opening tags of an outline is before the text of the outline. -/
theorem countP_startsFrom_eq_zero {rename : End → Text → Text} {outline : Outline}
    {start bound : Nat} (before : bound ≤ start) :
    (outline.startsFrom rename start).countP (· < bound) = 0 := by
  rw [List.countP_eq_zero]
  intro offset mem
  have bounds := mem_startsFrom mem
  simp only [decide_eq_true_eq]
  omega

/-- There is one opening tag for each environment. -/
theorem length_startsFrom (rename : End → Text → Text) (start : Nat) (outline : Outline) :
    (outline.startsFrom rename start).length = outline.names.length := by
  induction outline generalizing start with
  | plain text => rfl
  | environment front name inside after ihInside ihAfter =>
    simp [startsFrom, names, ihInside, ihAfter]

/-- All opening tags of an outline are before what comes behind the outline. -/
theorem countP_startsFrom_eq_length {rename : End → Text → Text} {outline : Outline}
    {start bound : Nat} (behind : start + (outline.spell rename).byteLength ≤ bound) :
    (outline.startsFrom rename start).countP (· < bound) = outline.names.length := by
  rw [← length_startsFrom rename start outline, List.countP_eq_length]
  intro offset mem
  have bounds := mem_startsFrom mem
  simp only [decide_eq_true_eq]
  omega

/-- The opening tags before a bound are that of the first environment, if it is, and those inside
and behind it. -/
theorem countP_startsFrom_environment (rename : End → Text → Text) (start bound : Nat)
    (front name : Text) (inside after : Outline) :
    ((environment front name inside after).startsFrom rename start).countP (· < bound) =
      (inside.startsFrom rename (start + front.byteLength +
        (End.opening.tag (rename .opening name)).byteLength)).countP (· < bound) +
      (after.startsFrom rename (start + front.byteLength +
        (End.opening.tag (rename .opening name)).byteLength + (inside.spell rename).byteLength +
        (End.closing.tag (rename .closing name)).byteLength)).countP (· < bound) +
      if start + front.byteLength < bound then 1 else 0 := by
  simp [startsFrom, List.countP_cons, List.countP_append]

/-- A place found in the text before the first environment comes behind no opening tag. -/
theorem foundBehind_front {reader : Reader α} (isLocal : reader.Local)
    {rename : End → Text → Text} {front name before tail : Text} {inside after : Outline}
    {found : Found α} (start : Nat) (here : reader.find? front = some (before, found)) :
    FoundBehind reader rename start (environment front name inside after) tail 0 := by
  have shorter := byteLength_lt_of_find? here
  have starts := End.atCommand_tag .opening (rename .opening name) (inside.spell rename ++
    (End.closing.tag (rename .closing name) ++ (after.spell rename ++ tail)))
  have whole := isLocal.find?_append_of_some starts here
  simp only [← List.append_assoc] at whole
  refine ⟨before, _, by simpa only [spell, ← List.append_assoc] using whole, ?_, ?_⟩
  · rw [spell, Text.byteLength_append]
    omega
  · rw [countP_startsFrom_environment, countP_startsFrom_eq_zero (by omega),
      countP_startsFrom_eq_zero (by omega), if_neg (by omega)]

/-- A place found inside the first environment comes behind one more opening tag. -/
theorem foundBehind_inside {reader : Reader α} {rename : End → Text → Text}
    {front name tail : Text} {inside after : Outline} {start count : Nat}
    (silentFront : ∀ rest, rest.AtCommand → reader.SilentOver front rest)
    (silentTag : ∀ rest, reader.SilentOver (End.opening.tag (rename .opening name)) rest)
    (foundInside : FoundBehind reader rename
      (start + front.byteLength + (End.opening.tag (rename .opening name)).byteLength) inside
      (End.closing.tag (rename .closing name) ++ (after.spell rename ++ tail)) count) :
    FoundBehind reader rename start (environment front name inside after) tail (count + 1) := by
  obtain ⟨before, found, here, shorter, counted⟩ := foundInside
  refine ⟨front ++ (End.opening.tag (rename .opening name) ++ before), found, ?_, ?_, ?_⟩
  · simp only [spell, List.append_assoc]
    rw [Reader.find?_append (silentFront _ (End.atCommand_tag _ _ _)),
      Reader.find?_append (silentTag _), here]
    rfl
  · simp only [spell, Text.byteLength_append]
    omega
  · have positive := byteLength_tag_pos .opening (rename .opening name)
    simp only [Text.byteLength_append, ← Nat.add_assoc]
    rw [countP_startsFrom_environment, counted, countP_startsFrom_eq_zero (by omega),
      if_pos (by omega), Nat.add_zero]

/-- A place found behind the first environment comes behind its opening tag and those inside. -/
theorem foundBehind_after {reader : Reader α} {rename : End → Text → Text}
    {front name tail : Text} {inside after : Outline} {start count : Nat}
    (silentFront : ∀ rest, rest.AtCommand → reader.SilentOver front rest)
    (silentTag : ∀ part rest, reader.SilentOver (End.tag part (rename part name)) rest)
    (silentInside : ∀ rest, rest.AtCommand → reader.SilentOver (inside.spell rename) rest)
    (foundAfter : FoundBehind reader rename
      (start + front.byteLength + (End.opening.tag (rename .opening name)).byteLength +
        (inside.spell rename).byteLength + (End.closing.tag (rename .closing name)).byteLength)
      after tail count) :
    FoundBehind reader rename start (environment front name inside after) tail
      (inside.names.length + count + 1) := by
  obtain ⟨before, found, here, shorter, counted⟩ := foundAfter
  refine ⟨front ++ (End.opening.tag (rename .opening name) ++ (inside.spell rename ++
    (End.closing.tag (rename .closing name) ++ before))), found, ?_, ?_, ?_⟩
  · simp only [spell, List.append_assoc]
    rw [Reader.find?_append (silentFront _ (End.atCommand_tag _ _ _)),
      Reader.find?_append (silentTag _ _),
      Reader.find?_append (silentInside _ (End.atCommand_tag _ _ _)),
      Reader.find?_append (silentTag _ _), here]
    rfl
  · simp only [spell, Text.byteLength_append]
    omega
  · have positive := byteLength_tag_pos .opening (rename .opening name)
    simp only [Text.byteLength_append, ← Nat.add_assoc]
    rw [countP_startsFrom_environment, counted, countP_startsFrom_eq_length (by omega),
      if_pos (by omega)]

/-- Either a reader finds nothing between the tags, or it finds its first place behind a number of
opening tags that does not depend on the spelling. -/
theorem absent_or_foundBehind {reader : Reader α} (isLocal : reader.Local) (outline : Outline) :
    (outline.Between fun text => reader.find? text = none) ∨
      ∃ count, ∀ rename start tail, PassesTags reader rename outline → tail.AtCommand →
        FoundBehind reader rename start outline tail count := by
  induction outline with
  | plain text =>
    cases here : reader.find? text with
    | none => exact .inl here
    | some place =>
      obtain ⟨front, found⟩ := place
      exact .inr ⟨0, fun rename start tail _ starts => ⟨front, _,
        isLocal.find?_append_of_some starts here, byteLength_lt_of_find? here, rfl⟩⟩
  | environment front name inside after ihInside ihAfter =>
    cases here : reader.find? front with
    | some place =>
      exact .inr ⟨0, fun rename start tail _ _ => foundBehind_front isLocal start here⟩
    | none =>
      have silentFront : ∀ rest, rest.AtCommand → reader.SilentOver front rest :=
        fun rest starts => isLocal.silentOver starts here
      rcases ihInside with absentInside | ⟨count, foundInside⟩
      · rcases ihAfter with absentAfter | ⟨count, foundAfter⟩
        · exact .inl ⟨here, absentInside, absentAfter⟩
        · refine .inr ⟨inside.names.length + count + 1, fun rename start tail passes starts => ?_⟩
          obtain ⟨silentTag, passesInside, passesAfter⟩ := passes.parts
          exact foundBehind_after silentFront silentTag
            (fun rest => silentOver_of_absent isLocal absentInside passesInside)
            (foundAfter rename _ tail passesAfter starts)
      · refine .inr ⟨count + 1, fun rename start tail passes starts => ?_⟩
        obtain ⟨silentTag, passesInside, -⟩ := passes.parts
        exact foundBehind_inside silentFront (silentTag .opening)
          (foundInside rename _ _ passesInside (End.atCommand_tag _ _ _))

/-- In order, the numbers below a bound are a front of the list. -/
theorem length_takeWhile_of_pairwise {numbers : List Nat} (ordered : numbers.Pairwise (· < ·))
    (bound : Nat) :
    (numbers.takeWhile fun number => isBeforeCut (some bound) number).length =
      numbers.countP (· < bound) := by
  induction numbers with
  | nil => rfl
  | cons first numbers ih =>
    obtain ⟨above, later⟩ := List.pairwise_cons.1 ordered
    rw [List.takeWhile_cons, List.countP_cons, isBeforeCut]
    by_cases below : first < bound
    · simp [below, ih later]
    · have none : numbers.countP (· < bound) = 0 := by
        rw [List.countP_eq_zero]
        intro number mem
        have larger := above number mem
        simp only [decide_eq_true_eq]
        omega
      simp [below, none]

/-- The appendix tag and the appendix command are no tags of environments. -/
theorem passesTags_appendix {rename : End → Text → Text} {outline : Outline}
    (readable : ∀ part, ∀ name ∈ outline.names, Spellable (rename part name))
    (other : ∀ part, ∀ name ∈ outline.names, rename part name ≠ "appendix".toList) :
    PassesTags (tagReader .opening "appendix".toList) rename outline ∧
      PassesTags appendixCommand rename outline := by
  constructor
  · intro part name occurs rest
    refine tagReader_silentOver_tag (by decide) (readable part name occurs) ?_
    exact fun _ => (other part name occurs).symm
  · intro part name occurs rest
    have letters : ∀ letter ∈ part.word, isControlLetter letter = true := by
      cases part <;> decide
    have unlike : (part.word == "appendix".toList) = false := by
      cases part <;> decide
    rw [End.tag_eq_cons]
    refine (Reader.controlWord_readsCommands _).silentOver_command
      (part.backslash_not_mem_tag_tail (readable part name occurs)) ?_
    have brace : ∀ first ∈ ('{' :: (rename part name ++ ['}'] ++ rest)).head?,
        isControlLetter first = false := by
      simp [isControlLetter]
    have read := Reader.controlWord_read (· == "appendix".toList) letters brace
    rw [unlike] at read
    rw [List.append_assoc]
    exact read

/-- The environment that starts the appendix is found by its opening tag. -/
theorem appendixCut?_eq (text : Text) :
    appendixCut? text =
      (((tagReader .opening "appendix".toList).find? text).map fun (front, _) =>
        front.byteLength).or
        ((appendixCommand.find? text).map fun (front, _) => front.byteLength) := by
  rw [appendixCut?, appendixTag, beginTag, EnvironmentScan.cut?_tag]
  cases (tagReader .opening "appendix".toList).find? text with
  | none => rfl
  | some place => rfl

/-- The number of opening tags before the appendix does not depend on the names in the tags, as
long as none of them is the appendix. -/
theorem exists_length_takeWhile_startsFrom (outline : Outline) :
    ∃ count, ∀ rename,
      (∀ part, ∀ name ∈ outline.names, Spellable (rename part name)) →
      (∀ part, ∀ name ∈ outline.names, rename part name ≠ "appendix".toList) →
      ((outline.startsFrom rename 0).takeWhile
        (isBeforeCut (appendixCut? (outline.spell rename)))).length = count := by
  have tagLocal : (tagReader .opening "appendix".toList).Local :=
    tagReader_local .opening (by decide)
  have commandLocal : appendixCommand.Local := Reader.controlWord_local (· == "appendix".toList)
  rcases absent_or_foundBehind tagLocal outline with noTag | ⟨count, foundTag⟩
  · rcases absent_or_foundBehind commandLocal outline with noCommand | ⟨count, foundCommand⟩
    · refine ⟨outline.names.length, fun rename readable other => ?_⟩
      obtain ⟨passesTag, passesCommand⟩ := passesTags_appendix readable other
      have tag := Reader.find?_of_silent
        (silentOver_of_absent tagLocal noTag passesTag Text.atCommand_nil)
      have command := Reader.find?_of_silent
        (silentOver_of_absent commandLocal noCommand passesCommand Text.atCommand_nil)
      have everything : (outline.startsFrom rename 0).takeWhile (isBeforeCut none) =
          outline.startsFrom rename 0 := by
        have whole : (outline.startsFrom rename 0 ++ []).takeWhile (isBeforeCut none) =
            outline.startsFrom rename 0 ++ [].takeWhile (isBeforeCut none) :=
          List.takeWhile_append_of_pos fun _ _ => rfl
        simpa using whole
      rw [appendixCut?_eq, tag, command]
      exact (congrArg List.length everything).trans (length_startsFrom rename 0 outline)
    · refine ⟨count, fun rename readable other => ?_⟩
      obtain ⟨passesTag, passesCommand⟩ := passesTags_appendix readable other
      have tag := Reader.find?_of_silent
        (silentOver_of_absent tagLocal noTag passesTag Text.atCommand_nil)
      obtain ⟨front, found, here, -, counted⟩ :=
        foundCommand rename 0 [] passesCommand Text.atCommand_nil
      rw [List.append_nil] at here
      rw [Nat.zero_add] at counted
      rw [appendixCut?_eq, tag, here, ← counted]
      exact length_takeWhile_of_pairwise (pairwise_startsFrom rename 0 outline) _
  · refine ⟨count, fun rename readable other => ?_⟩
    obtain ⟨passesTag, -⟩ := passesTags_appendix readable other
    obtain ⟨front, found, here, -, counted⟩ := foundTag rename 0 [] passesTag Text.atCommand_nil
    rw [List.append_nil] at here
    rw [Nat.zero_add] at counted
    rw [appendixCut?_eq, here, ← counted]
    exact length_takeWhile_of_pairwise (pairwise_startsFrom rename 0 outline) _

end Outline
end TexStatements
