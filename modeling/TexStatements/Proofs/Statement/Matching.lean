import Mathlib.Data.List.Nodup
import TexStatements.Proofs.Statement.Scan

/-!
# Matched pairs of tags

Whatever a text looks like, the scan of canonical tags finds the regions of those pairs of an
opening and a later closing tag that have balanced tags between them. The scan works on the tags
that are open; what one more tag preserves is that the tags between two that are open, and those
behind the last one, are balanced. Since a tag has its only backslash at its start, the search for
tags passes over none, and finds in a part of the text what it finds there in the whole.
-/
namespace TexStatements

namespace Reader

variable {α : Type} {reader : Reader α}

/-- What is found before and behind one of the places that are found. -/
theorem Local.occurrences_eq_append_cons_iff (isLocal : reader.Local)
    (commands : reader.ReadsCommands) {text : Text} {earlier later : List (Found α)}
    {found : Found α} :
    reader.occurrences text = earlier ++ found :: later ↔
      ∃ front, text = front ++ found.place ∧
        reader.read found.place = some (found.value, found.rest) ∧
        earlier = (reader.occurrences front).map (·.before found.place) ∧
        later = reader.occurrences found.rest := by
  constructor
  · intro split
    have places := (reader.occurrences_ordered text).1
    -- No place is found twice, so there is one way only to divide the list at this one.
    have distinct := reader.nodup_occurrences text
    rw [split] at places
    obtain ⟨⟨front, rfl⟩, read⟩ := places found (by simp)
    rw [split, List.nodup_middle, List.nodup_cons, List.mem_append, not_or] at distinct
    rw [isLocal.occurrences_append (commands.atCommand read), occurrences_of_read read] at split
    obtain ⟨before, -, behind⟩ :=
      (List.append_cons_inj_of_notMem distinct.1.1 distinct.1.2).1 split.symm
    exact ⟨front, rfl, read, before, behind⟩
  · rintro ⟨front, rfl, read, rfl, rfl⟩
    rw [isLocal.occurrences_append (commands.atCommand read), occurrences_of_read read]

end Reader

namespace StatementRegion

open Environment

/-- Canonical tags are read at a backslash only. -/
theorem tag_readsCommands : tag.ReadsCommands := by
  intro first tail other
  cases read : tag.read (first :: tail) with
  | none => rfl
  | some found =>
    obtain ⟨part, rest⟩ := found
    have whole := readTag_eq_append read
    rw [End.tag_eq_cons] at whole
    exact absurd (List.cons.inj whole).1 other

/-- A canonical tag is read regardless of a command that follows. -/
theorem tag_local : tag.Local := by
  intro text rest nonempty starts
  have reads part := tagReader_local part spellable_canonicalEnvironment text rest nonempty starts
  have opened := reads .opening
  have closed := reads .closing
  simp only [tagReader, Reader.literal] at opened closed
  change readTag (text ++ rest) = (readTag text).map _
  rw [readTag, readTag]
  cases here : Text.dropLiteral? (beginTag canonicalEnvironment) text <;>
    cases there : Text.dropLiteral? (endTag canonicalEnvironment) text <;>
    simp_all [beginTag, endTag]

/-- The search finds the tags in front of a tag, the tag, and those behind it. -/
theorem occurrences_tag (front : Text) (part : End) (rest : Text) :
    tag.occurrences (front ++ (part.tag canonicalEnvironment ++ rest)) =
      (tag.occurrences front).map (·.before (part.tag canonicalEnvironment ++ rest)) ++
        ⟨part.tag canonicalEnvironment ++ rest, part, rest⟩ :: tag.occurrences rest := by
  rw [tag_local.occurrences_append (End.atCommand_tag _ _ _),
    Reader.occurrences_of_read (tag_read part rest)]

/-- The canonical tags in a text, from left to right. -/
def tagsOf (text : Text) : List End :=
  text.tails.filterMap fun place => (readTag place).map (·.1)

/-- The tags in a text are the one at its start, if any, and those in its tail. -/
theorem tagsOf_cons (first : Char) (tail : Text) :
    tagsOf (first :: tail) = ((readTag (first :: tail)).map (·.1)).toList ++ tagsOf tail := by
  rw [tagsOf, List.tails, List.filterMap_cons]
  cases readTag (first :: tail) <;> rfl

/-- No canonical tag starts in a front without a backslash. -/
theorem tagsOf_append {front : Text} (rest : Text) (free : '\\' ∉ front) :
    tagsOf (front ++ rest) = tagsOf rest := by
  induction front with
  | nil => rfl
  | cons first front ih =>
    rw [List.mem_cons, not_or] at free
    have unread : readTag (first :: (front ++ rest)) = none :=
      tag_readsCommands first _ (Ne.symm free.1)
    rw [List.cons_append, tagsOf_cons, unread]
    exact ih free.2

/-- The search passes over no tag, since a tag has no other tag inside. -/
theorem map_value_occurrences (text : Text) :
    (tag.occurrences text).map (·.value) = tagsOf text := by
  fun_induction tag.occurrences text with
  | case1 => rfl
  | case2 first tail part rest read ih =>
    have whole := readTag_eq_append read
    rw [End.tag_eq_cons, List.cons_append] at whole
    have inside := tagsOf_append rest
      (part.backslash_not_mem_tag_tail spellable_canonicalEnvironment)
    rw [← (List.cons.inj whole).2] at inside
    have here : readTag (first :: tail) = some (part, rest) := read
    rw [List.map_cons, ih, tagsOf_cons, here, inside]
    rfl
  | case3 first tail unread ih =>
    have here : readTag (first :: tail) = none := unread
    rw [ih, tagsOf_cons, here]
    rfl

/-- Tags that are balanced: there are none, or the first one opens and is closed behind balanced
tags, with balanced tags behind it. -/
inductive Balanced : List End → Prop
  | nil : Balanced []
  | pair {inside after : List End} (balancedInside : Balanced inside)
      (balancedAfter : Balanced after) : Balanced (.opening :: (inside ++ .closing :: after))

/-- Balanced tags in a row are balanced. -/
theorem Balanced.append {front rest : List End} (balanced : Balanced front)
    (balancedRest : Balanced rest) : Balanced (front ++ rest) := by
  induction balanced with
  | nil => exact balancedRest
  | pair balancedInside _ _ ih =>
    rw [List.cons_append, List.append_assoc, List.cons_append]
    exact .pair balancedInside ih

/-- The tags that are open behind one more tag, innermost first. -/
def openAfter (opened : List (Found End)) (found : Found End) : List (Found End) :=
  match found.value with
  | .opening => found :: opened
  | .closing => opened.tail

/-- The region of an opening and a closing tag in a text of a number of bytes. -/
def ofPair (bytes : Nat) (opening closing : Found End) : StatementRegion :=
  let bodyStart := Text.offsetIn bytes opening.place + openingBytes
  let bodyStop := Text.offsetIn bytes closing.place
  ⟨Text.offsetIn bytes opening.place, bodyStart, bodyStop,
    opening.rest.frontBytes (bodyStop - bodyStart)⟩

/-- The region that a tag closes, if it closes a tag that is open. -/
def closedBy (bytes : Nat) (opened : List (Found End)) (found : Found End) :
    List StatementRegion :=
  match found.value, opened with
  | .closing, opening :: _ => [ofPair bytes opening found]
  | _, _ => []

/-- One tag closes at most one region, and leaves others open. -/
theorem ofTags_cons (bytes : Nat) (opened more : List (Found End)) (found : Found End) :
    ofTags bytes opened (found :: more) =
      closedBy bytes opened found ++ ofTags bytes (openAfter opened found) more := by
  obtain ⟨place, part, rest⟩ := found
  cases part with
  | opening => rfl
  | closing => cases opened <;> rfl

/-- What a tag closes is the region from the innermost open tag to it. -/
theorem mem_closedBy_iff {bytes : Nat} {opened : List (Found End)} {found : Found End}
    {region : StatementRegion} :
    region ∈ closedBy bytes opened found ↔ found.value = .closing ∧
      ∃ opening outer, opened = opening :: outer ∧ region = ofPair bytes opening found := by
  unfold closedBy
  split
  · rename_i opening outer closes
    simp [closes]
  · rename_i other
    simp only [List.not_mem_nil, false_iff]
    rintro ⟨closes, opening, outer, opened, -⟩
    exact other opening outer closes opened

/-- A region is found at each closing tag that has a tag open in front of it. -/
theorem mem_ofTags_iff {bytes : Nat} {opened founds : List (Found End)}
    {region : StatementRegion} :
    region ∈ ofTags bytes opened founds ↔ ∃ before closing after opening outer,
      founds = before ++ closing :: after ∧ closing.value = .closing ∧
      before.foldl openAfter opened = opening :: outer ∧ region = ofPair bytes opening closing := by
  induction founds generalizing opened with
  | nil => simp [ofTags]
  | cons found more ih =>
    rw [ofTags_cons, List.mem_append, mem_closedBy_iff, ih]
    constructor
    · rintro (⟨closes, opening, outer, stack, rfl⟩ |
        ⟨before, closing, after, opening, outer, rfl, closes, stack, rfl⟩)
      · exact ⟨[], found, more, opening, outer, rfl, closes, stack, rfl⟩
      · exact ⟨found :: before, closing, after, opening, outer, rfl, closes, stack, rfl⟩
    · rintro ⟨before, closing, after, opening, outer, split, closes, stack, rfl⟩
      cases before with
      | nil =>
        cases split
        exact .inl ⟨closes, opening, outer, stack, rfl⟩
      | cons first before =>
        cases split
        exact .inr ⟨before, closing, after, opening, outer, rfl, closes, stack, rfl⟩

/-- What the tags of a front leave open: each open tag opens balanced tags, up to the next one that
is open. -/
def LeavesOpen : List (Found End) → List (Found End) → Prop
  | _, [] => True
  | front, opening :: outer => ∃ before inside, front = before ++ opening :: inside ∧
      opening.value = .opening ∧ Balanced (inside.map (·.value)) ∧ LeavesOpen before outer

/-- One more tag. -/
theorem LeavesOpen.openAfter {front opened : List (Found End)} (leaves : LeavesOpen front opened)
    (found : Found End) : LeavesOpen (front ++ [found]) (openAfter opened found) := by
  cases part : found.value with
  | opening =>
    rw [StatementRegion.openAfter, part]
    exact ⟨front, [], rfl, part, .nil, leaves⟩
  | closing =>
    rw [StatementRegion.openAfter, part]
    cases opened with
    | nil => trivial
    | cons innermost outer =>
      cases outer with
      | nil => trivial
      | cons opening outer =>
        -- The innermost tag and what it opened are now balanced tags behind the next one.
        obtain ⟨_, inside, rfl, opens, balanced, before, further, rfl, opensOuter,
          balancedOuter, leaves⟩ := leaves
        refine ⟨before, further ++ innermost :: (inside ++ [found]), by simp, opensOuter, ?_,
          leaves⟩
        simp only [List.map_append, List.map_cons, List.map_nil, opens, part]
        exact balancedOuter.append (.pair balanced .nil)

/-- Any number of tags. -/
theorem LeavesOpen.foldl {front opened : List (Found End)} (leaves : LeavesOpen front opened)
    (founds : List (Found End)) :
    LeavesOpen (front ++ founds) (founds.foldl StatementRegion.openAfter opened) := by
  induction founds generalizing front opened with
  | nil => simpa using leaves
  | cons found more ih =>
    have further := ih (leaves.openAfter found)
    rwa [List.append_assoc] at further

/-- Balanced tags leave open what was open. -/
theorem foldl_openAfter_of_balanced {ends : List End} (balanced : Balanced ends) :
    ∀ founds opened : List (Found End), founds.map (·.value) = ends →
      founds.foldl openAfter opened = opened := by
  induction balanced with
  | nil =>
    intro founds opened spelled
    rw [List.map_eq_nil_iff.1 spelled]
    rfl
  | pair _ _ ihInside ihAfter =>
    intro founds opened spelled
    obtain ⟨opening, founds, rfl, opens, spelled⟩ := List.map_eq_cons_iff.1 spelled
    obtain ⟨inside, founds, rfl, insideSpelled, spelled⟩ := List.map_eq_append_iff.1 spelled
    obtain ⟨closing, after, rfl, closes, afterSpelled⟩ := List.map_eq_cons_iff.1 spelled
    rw [List.foldl_cons, List.foldl_append, ihInside _ _ insideSpelled, List.foldl_cons,
      ihAfter _ _ afterSpelled]
    simp only [openAfter, opens, closes, List.tail_cons]

/-- The scan finds the regions of the pairs of tags that have balanced tags between them. -/
theorem mem_ofTags_nil_iff {bytes : Nat} {founds : List (Found End)} {region : StatementRegion} :
    region ∈ ofTags bytes [] founds ↔ ∃ before opening inside closing after,
      founds = before ++ opening :: (inside ++ closing :: after) ∧ opening.value = .opening ∧
      closing.value = .closing ∧ Balanced (inside.map (·.value)) ∧
      region = ofPair bytes opening closing := by
  rw [mem_ofTags_iff]
  constructor
  · rintro ⟨front, closing, after, opening, outer, rfl, closes, stack, rfl⟩
    have leaves := LeavesOpen.foldl (show LeavesOpen [] [] from trivial) front
    rw [stack] at leaves
    obtain ⟨before, inside, rfl, opens, balanced, -⟩ := leaves
    exact ⟨before, opening, inside, closing, after, by simp, opens, closes, balanced, rfl⟩
  · rintro ⟨before, opening, inside, closing, after, rfl, opens, closes, balanced, rfl⟩
    refine ⟨before ++ opening :: inside, closing, after, opening, before.foldl openAfter [],
      by simp, closes, ?_, rfl⟩
    rw [List.foldl_append, List.foldl_cons, foldl_openAfter_of_balanced balanced _ _ rfl]
    simp only [openAfter, opens]

/-- A text divided at a pair of canonical tags. -/
structure Encloses (text : Text) (region : StatementRegion) (front rest : Text) : Prop where
  /-- The body is what stands between the tags. -/
  whole : text = front ++ (beginTag canonicalEnvironment ++
    (region.body ++ (endTag canonicalEnvironment ++ rest)))
  /-- The region starts where the opening tag does. -/
  start : region.start = front.byteLength
  /-- The body starts just behind the opening tag. -/
  bodyStart : region.bodyStart = region.start + openingBytes
  /-- The body stops where the closing tag starts. -/
  bodyStop : region.bodyStop = region.bodyStart + region.body.byteLength

/-- The region of a pair of tags in the text that they divide. -/
theorem ofPair_eq (front body rest : Text) :
    let closing := endTag canonicalEnvironment ++ rest
    let inside := body ++ closing
    let opening := beginTag canonicalEnvironment ++ inside
    ofPair (front ++ opening).byteLength ⟨opening, .opening, inside⟩ ⟨closing, .closing, rest⟩ =
      ⟨front.byteLength, front.byteLength + openingBytes,
        front.byteLength + openingBytes + body.byteLength, body⟩ := by
  intro closing inside opening
  have start : Text.offsetIn (front ++ opening).byteLength opening = front.byteLength :=
    Text.offsetOf_append front opening
  have stop : Text.offsetIn (front ++ opening).byteLength closing =
      front.byteLength + openingBytes + body.byteLength := by
    simp only [Text.offsetIn, opening, inside, Text.byteLength_append, openingBytes]
    omega
  simp only [ofPair, start, stop, Nat.add_sub_cancel_left, inside, Text.frontBytes_byteLength]

/-- The regions of a text are those of the pairs of an opening and a later closing tag with
balanced tags between them. -/
theorem mem_ofText_iff {text : Text} {region : StatementRegion} :
    region ∈ ofText text ↔ Balanced (tagsOf region.body) ∧
      ∃ front rest, Encloses text region front rest := by
  have scanned : region ∈ ofText text ↔
      region ∈ ofTags text.byteLength [] (tag.occurrences text) :=
    (List.mergeSort_perm _ _).mem_iff
  rw [scanned, mem_ofTags_nil_iff]
  constructor
  · rintro ⟨before, ⟨opening, _, inner⟩, inside, ⟨closing, _, rest⟩, after, split, rfl, rfl,
      balanced, rfl⟩
    obtain ⟨front, rfl, opened, -, split⟩ :=
      (tag_local.occurrences_eq_append_cons_iff tag_readsCommands).1 split
    obtain ⟨body, rfl, closed, rfl, -⟩ :=
      (tag_local.occurrences_eq_append_cons_iff tag_readsCommands).1 split.symm
    have spelledClosing := readTag_eq_append closed
    have spelledOpening := readTag_eq_append opened
    dsimp only at spelledClosing spelledOpening
    subst spelledClosing
    subst spelledOpening
    have pair := ofPair_eq front body rest
    dsimp only [beginTag, endTag] at pair
    rw [pair]
    rw [List.map_map] at balanced
    refine ⟨?_, front, rest, rfl, rfl, rfl, rfl⟩
    rw [← map_value_occurrences]
    exact balanced
  · rintro ⟨balanced, front, rest, whole, start, bodyStart, bodyStop⟩
    obtain ⟨_, _, _, body⟩ := region
    dsimp only at *
    subst bodyStop bodyStart start whole
    rw [← map_value_occurrences] at balanced
    have split := occurrences_tag front .opening
      (body ++ (End.closing.tag canonicalEnvironment ++ rest))
    rw [occurrences_tag body .closing rest] at split
    refine ⟨_, _, _, _, _, split, rfl, rfl, ?_, (ofPair_eq front body rest).symm⟩
    rw [List.map_map]
    exact balanced

end StatementRegion
end TexStatements
