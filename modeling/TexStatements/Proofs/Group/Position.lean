import TexStatements.Group.Position
import TexStatements.Proofs.Group.Grammar

/-!
# Groups by offset

A group whose inside starts at an offset ends at the offset of a closing delimiter such that the
text between the two belongs to the grammar of its insides. There is at most one such offset, the
readers by offset answer it, and they answer none exactly where there is none.
-/
namespace TexStatements
namespace Text

/-- The character that starts at a byte offset. -/
def characterAt? (text : Text) (offset : Nat) : Option Char :=
  if text.isBoundary offset then (text.fromByte offset).head? else none

/-- The text between two byte offsets. -/
def slice (text : Text) (start stop : Nat) : Text := (text.fromByte start).frontBytes (stop - start)

/-- A group whose inside starts at an offset ends at another one: there its closing delimiter
stands, and the text between the two may stand inside it. -/
structure ClosesAt (inside : Text → Prop) (delimiter : Char) (text : Text)
    (start closing : Nat) : Prop where
  /-- The delimiter does not stand before the inside. -/
  ordered : start ≤ closing
  /-- The delimiter stands where the group ends. -/
  delimited : text.characterAt? closing = some delimiter
  /-- What is between is an inside of the group. -/
  inner : inside (text.slice start closing)

/-- The suffix at the offset of a suffix is that suffix. -/
@[simp] theorem fromByte_byteLength (front suffix : Text) :
    fromByte (front ++ suffix) (byteLength front) = suffix := by
  have whole := frontBytes_append_fromByte (front ++ suffix) (byteLength front)
  rw [frontBytes_byteLength, List.append_cancel_left_eq] at whole
  exact whole

/-- The offsets between characters are those of the suffixes. -/
theorem isBoundary_iff {text : Text} {offset : Nat} :
    text.isBoundary offset = true ↔ ∃ front suffix, text = front ++ suffix ∧
      byteLength front = offset := by
  constructor
  · intro boundary
    induction text generalizing offset with
    | nil =>
      cases offset with
      | zero => exact ⟨[], [], rfl, rfl⟩
      | succ offset => simp [isBoundary] at boundary
    | cons first rest ih =>
      cases offset with
      | zero => exact ⟨[], first :: rest, rfl, rfl⟩
      | succ offset =>
        rw [isBoundary, Bool.and_eq_true, decide_eq_true_eq] at boundary
        obtain ⟨front, suffix, rfl, length⟩ := ih boundary.2
        refine ⟨first :: front, suffix, rfl, ?_⟩
        have fits := boundary.1
        rw [byteLength_cons, length]
        omega
  · rintro ⟨front, suffix, rfl, rfl⟩
    induction front with
    | nil => cases suffix <;> rfl
    | cons first front ih =>
      have positive := first.utf8Size_pos
      obtain ⟨more, size⟩ := Nat.exists_eq_succ_of_ne_zero (Nat.ne_of_gt positive)
      have step : byteLength (first :: front) = (more + byteLength front) + 1 := by
        rw [byteLength_cons, size]
        omega
      have left : more + byteLength front + 1 - more.succ = byteLength front := by omega
      have fits : more.succ ≤ more + byteLength front + 1 := by omega
      rw [step, List.cons_append, isBoundary, size, left, ih, Bool.and_true, decide_eq_true_eq]
      exact fits

/-- A character starts at the offset of the front before it. -/
theorem characterAt?_eq_some_iff {text : Text} {offset : Nat} {c : Char} :
    text.characterAt? offset = some c ↔ ∃ front rest, text = front ++ c :: rest ∧
      byteLength front = offset := by
  unfold characterAt?
  constructor
  · intro found
    by_cases boundary : text.isBoundary offset = true
    · obtain ⟨front, suffix, rfl, rfl⟩ := isBoundary_iff.1 boundary
      rw [if_pos boundary, fromByte_byteLength] at found
      obtain ⟨rest, rfl⟩ := List.head?_eq_some_iff.1 found
      exact ⟨front, rest, rfl, rfl⟩
    · rw [if_neg boundary] at found
      cases found
  · rintro ⟨front, rest, rfl, rfl⟩
    have boundary := isBoundary_iff.2 ⟨front, c :: rest, rfl, rfl⟩
    rw [if_pos boundary, fromByte_byteLength, List.head?_cons]

/-- The text between the offsets of two fronts is what the second has more. -/
theorem slice_byteLength (front inner suffix : Text) :
    slice (front ++ inner ++ suffix) (byteLength front) (byteLength (front ++ inner)) = inner := by
  rw [slice, List.append_assoc, fromByte_byteLength, byteLength_append, Nat.add_sub_cancel_left,
    frontBytes_byteLength]

/-- Of two fronts of a text the one with fewer bytes is a front of the other. -/
theorem exists_eq_append_of_byteLength_le {front suffix longer rest : Text}
    (same : front ++ suffix = longer ++ rest) (less : byteLength front ≤ byteLength longer) :
    ∃ inner, longer = front ++ inner ∧ suffix = inner ++ rest := by
  rcases List.append_eq_append_iff.1 same with ⟨inner, rfl, rfl⟩ | ⟨inner, rfl, rfl⟩
  · exact ⟨inner, rfl, rfl⟩
  · -- The other way round the longer front has no more bytes, so nothing is left over.
    cases inner with
    | nil => exact ⟨[], by simp, by simp⟩
    | cons first inner =>
      have positive := first.utf8Size_pos
      rw [byteLength_append, byteLength_cons] at less
      omega

/-- Fronts of a text with as many bytes are the same. -/
theorem append_inj_of_byteLength {front suffix other rest : Text}
    (same : front ++ suffix = other ++ rest) (size : byteLength front = byteLength other) :
    front = other ∧ suffix = rest := by
  obtain ⟨inner, rfl, rfl⟩ := exists_eq_append_of_byteLength_le same (Nat.le_of_eq size)
  cases inner with
  | nil => simp
  | cons first inner =>
    have positive := first.utf8Size_pos
    rw [byteLength_append, byteLength_cons] at size
    omega

section Groups

variable {inside : Text → Prop} {delimiter : Char}

/-- A group that starts behind a front ends behind an inside that the rest of the text starts
with. -/
theorem closesAt_iff {front tail : Text} {closing : Nat} :
    ClosesAt inside delimiter (front ++ tail) (byteLength front) closing ↔
      ∃ inner rest, tail = inner ++ delimiter :: rest ∧ inside inner ∧
        closing = byteLength (front ++ inner) := by
  constructor
  · rintro ⟨ordered, delimited, inner⟩
    obtain ⟨longer, rest, whole, rfl⟩ := characterAt?_eq_some_iff.1 delimited
    obtain ⟨between, rfl, rfl⟩ := exists_eq_append_of_byteLength_le whole ordered
    rw [whole, slice_byteLength] at inner
    exact ⟨between, rest, rfl, inner, rfl⟩
  · rintro ⟨inner, rest, rfl, isInside, rfl⟩
    rw [← List.append_assoc]
    refine ⟨?_, ?_, ?_⟩
    · rw [byteLength_append]
      omega
    · exact characterAt?_eq_some_iff.2 ⟨front ++ inner, rest, rfl, rfl⟩
    · rw [slice_byteLength]
      exact isInside

/-- The offsets of closing delimiters that are answered are exactly those at which the grammar ends
a group. -/
theorem closingAt?_eq_some_iff (delimiters : Group.Delimiters) {text : Text} {start : Nat}
    (boundary : text.isBoundary start = true) (closing : Nat) :
    text.closingAt? delimiters start = some closing ↔
      ClosesAt delimiters.Inside delimiters.closing text start closing := by
  obtain ⟨front, tail, rfl, rfl⟩ := isBoundary_iff.1 boundary
  rw [closingAt?, fromByte_byteLength, closesAt_iff, Option.map_eq_some_iff]
  constructor
  · rintro ⟨⟨inner, rest⟩, closed, offset⟩
    obtain ⟨rfl, isInside⟩ := Group.close?_eq_some_iff.1 closed
    refine ⟨inner, rest, rfl, isInside, ?_⟩
    rw [← offset, ← List.append_assoc]
    exact offsetOf_append _ _
  · rintro ⟨inner, rest, rfl, isInside, rfl⟩
    refine ⟨(inner, rest), Group.close?_eq_some_iff.2 ⟨rfl, isInside⟩, ?_⟩
    rw [← List.append_assoc]
    exact offsetOf_append _ _

/-- Where an answer is an offset exactly if a group ends there, groups end at one offset at most,
and without an answer at none. -/
theorem answer_unique {text : Text} {start : Nat} {answer : Option Nat}
    (answers : ∀ closing, answer = some closing ↔ ClosesAt inside delimiter text start closing) :
    (∀ first second, ClosesAt inside delimiter text start first →
      ClosesAt inside delimiter text start second → first = second) ∧
    (answer = none ↔ ∀ closing, ¬ClosesAt inside delimiter text start closing) := by
  constructor
  · intro first second endsFirst endsSecond
    have isFirst := (answers first).2 endsFirst
    have isSecond := (answers second).2 endsSecond
    rw [isFirst] at isSecond
    exact Option.some.inj isSecond
  · rw [Option.eq_none_iff_forall_ne_some]
    exact forall_congr' fun closing => not_congr (answers closing)

end Groups

/-- From every offset between characters the closing delimiters of a brace group and of a bracket
group are found exactly where the grammars end the group. There is at most one such offset, and
none is found exactly where there is none. -/
theorem closing_delimiters_eq_grammar (text : Text) (start : Nat)
    (boundary : text.isBoundary start = true) :
    ((∀ closing, text.closingBraceAt? start = some closing ↔
        ClosesAt Group.BraceInside '}' text start closing) ∧
      (∀ first second, ClosesAt Group.BraceInside '}' text start first →
        ClosesAt Group.BraceInside '}' text start second → first = second) ∧
      (text.closingBraceAt? start = none ↔
        ∀ closing, ¬ClosesAt Group.BraceInside '}' text start closing)) ∧
    (∀ closing, text.closingBracketAt? start = some closing ↔
        ClosesAt Group.BracketInside ']' text start closing) ∧
      (∀ first second, ClosesAt Group.BracketInside ']' text start first →
        ClosesAt Group.BracketInside ']' text start second → first = second) ∧
      (text.closingBracketAt? start = none ↔
        ∀ closing, ¬ClosesAt Group.BracketInside ']' text start closing) := by
  have brace := closingAt?_eq_some_iff .braces boundary
  have bracket := closingAt?_eq_some_iff .brackets boundary
  exact ⟨⟨brace, answer_unique brace⟩, bracket, answer_unique bracket⟩

/-- A brace group and a bracket group are closed behind the same inner group, whose bracket does not
count, and in which a backslash escapes a character of two bytes. -/
theorem closing_delimiters_multibyte :
    let text : Text := "[\x7b]\\é\x7d]\x7d".toList
    text.isBoundary 1 = true ∧
      text.closingBraceAt? 1 = some 8 ∧ ClosesAt Group.BraceInside '}' text 1 8 ∧
      text.closingBracketAt? 1 = some 7 ∧ ClosesAt Group.BracketInside ']' text 1 7 := by
  intro text
  have boundary : text.isBoundary 1 = true := by decide +kernel
  have brace : text.closingBraceAt? 1 = some 8 := by decide +kernel
  have bracket : text.closingBracketAt? 1 = some 7 := by decide +kernel
  have grammar := closing_delimiters_eq_grammar text 1 boundary
  exact ⟨boundary, brace, (grammar.1.1 8).1 brace, bracket, (grammar.2.1 7).1 bracket⟩

end Text
end TexStatements
