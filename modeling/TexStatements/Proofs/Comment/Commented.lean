import TexStatements.Proofs.Comment.Mask
import TexStatements.Proofs.Text.Commands
import TexStatements.Source.Inline

/-!
# Commented commands

The comment of a line starts at the first index that holds a percent sign behind an even number of
backslashes (`start?_eq_some_iff`). Whether an index is of that kind depends on the line up to there
only, so that the part of a line before a place has a comment exactly if the comment of the whole
line starts before the place. Therefore a command is passed over as commented exactly if the first
of its bytes is among those that removing the comments leaves out (`commented_iff_stripped`).
-/
namespace TexStatements
namespace Comment

open Utf8 (encode lineFeed)

/-- An index of a line, in bytes, holds a percent sign behind an even number of backslashes. -/
def OpensAt (line : Text) (index : Nat) : Prop :=
  ∃ code behind, line = code ++ '%' :: behind ∧ code.byteLength = index ∧ ¬code.EndsUnpaired

section Start

variable {line head : Text} {index start : Nat}

/-- What stands in front of a percent sign and ends before a place is in front of the place, and
the percent sign with it. -/
theorem exists_percent_of_lt {code behind tail : Text}
    (same : code ++ '%' :: behind = head ++ tail) (less : code.byteLength < head.byteLength) :
    ∃ inner, head = code ++ '%' :: inner := by
  rcases List.append_eq_append_iff.1 same with ⟨more, rfl, rest⟩ | ⟨more, rfl, -⟩
  · cases more with
    | nil =>
      rw [List.append_nil] at less
      exact absurd less (Nat.lt_irrefl _)
    | cons first inner =>
      rw [List.cons_append] at rest
      exact ⟨inner, by rw [← (List.cons.inj rest).1]⟩
  · rw [Text.byteLength_append] at less
    omega

/-- Whether a comment may start at an index depends on the line up to any place behind it only. -/
theorem opensAt_append_iff (inside : index < head.byteLength) (tail : Text) :
    OpensAt (head ++ tail) index ↔ OpensAt head index := by
  constructor
  · rintro ⟨code, behind, same, rfl, even⟩
    obtain ⟨inner, rfl⟩ := exists_percent_of_lt same.symm inside
    exact ⟨code, inner, rfl, rfl, even⟩
  · rintro ⟨code, behind, rfl, rfl, even⟩
    exact ⟨code, behind ++ tail, by simp, rfl, even⟩

/-- An index that holds a percent sign is inside the line. -/
theorem OpensAt.lt (opens : OpensAt line index) : index < line.byteLength := by
  obtain ⟨code, behind, rfl, rfl, -⟩ := opens
  have positive := '%'.utf8Size_pos
  rw [Text.byteLength_append, Text.byteLength_cons]
  omega

/-- The comment of a line starts at a percent sign behind an even number of backslashes. -/
theorem opensAt_of_start? (starts : start? line = some start) : OpensAt line start := by
  obtain ⟨nonempty, rfl⟩ := mem_start?_iff.1 starts
  obtain ⟨behind, isComment⟩ := (divides_line line).exists_percent nonempty
  have whole := codeOf_append_commentOf line
  rw [isComment] at whole
  exact ⟨codeOf line, behind, whole.symm, rfl, (divides_line line).opens nonempty⟩

/-- In front of the comment of a line no comment may start. -/
theorem not_opensAt_of_lt (less : index < (codeOf line).byteLength) : ¬OpensAt line index := by
  rw [← codeOf_append_commentOf line, opensAt_append_iff less]
  rintro ⟨code, inner, whole, -, even⟩
  exact even ((divides_line line).escaped code inner whole)

/-- The comment of a line starts at the least index that holds a percent sign behind an even number
of backslashes. -/
theorem start?_eq_some_iff :
    start? line = some start ↔ OpensAt line start ∧ ∀ index < start, ¬OpensAt line index := by
  constructor
  · intro starts
    obtain ⟨-, rfl⟩ := mem_start?_iff.1 starts
    exact ⟨opensAt_of_start? starts, fun index less => not_opensAt_of_lt less⟩
  · rintro ⟨opens, least⟩
    have behind : (codeOf line).byteLength ≤ start :=
      Nat.le_of_not_lt fun less => not_opensAt_of_lt less opens
    have nonempty : commentOf line ≠ [] := by
      intro empty
      have whole := codeOf_append_commentOf line
      rw [empty, List.append_nil] at whole
      have inside := opens.lt
      rw [whole] at behind
      omega
    have starts : start? line = some (codeOf line).byteLength :=
      mem_start?_iff.2 ⟨nonempty, rfl⟩
    have before : start ≤ (codeOf line).byteLength :=
      Nat.le_of_not_lt fun less => least _ less (opensAt_of_start? starts)
    rw [starts, Nat.le_antisymm behind before]

/-- A line has a comment exactly if a comment may start somewhere in it. -/
theorem commentOf_ne_nil_iff : commentOf line ≠ [] ↔ ∃ index, OpensAt line index := by
  constructor
  · intro nonempty
    exact ⟨_, opensAt_of_start? (mem_start?_iff.2 ⟨nonempty, rfl⟩)⟩
  · rintro ⟨index, opens⟩ empty
    have whole := codeOf_append_commentOf line
    rw [empty, List.append_nil] at whole
    exact not_opensAt_of_lt (whole.symm ▸ opens.lt) opens

/-- The part of a line before a place has a comment exactly if the comment of the line starts before
the place. -/
theorem exists_start?_lt_iff (head tail : Text) :
    (∃ start ∈ start? (head ++ tail), start < head.byteLength) ↔ commentOf head ≠ [] := by
  rw [commentOf_ne_nil_iff]
  constructor
  · rintro ⟨start, starts, before⟩
    exact ⟨start, (opensAt_append_iff before tail).1 (opensAt_of_start? starts)⟩
  · rintro ⟨index, opens⟩
    have inWhole := (opensAt_append_iff opens.lt tail).2 opens
    have starts := mem_start?_iff.2 ⟨commentOf_ne_nil_iff.2 ⟨index, inWhole⟩, rfl⟩
    have first := Nat.le_of_not_lt fun less => not_opensAt_of_lt less inWhole
    exact ⟨_, starts, Nat.lt_of_le_of_lt first opens.lt⟩

end Start

/-- The line that a place stands in, with the line feed that ends it: its part in front of the
place, and the first line from the place on. -/
def lineAround (front rest : Text) : Text := lastLine front ++ rest.lines.headD []

section Lines

variable {front rest : Text}

/-- A text without line feeds is its last line. -/
theorem lastLine_of_not_mem (free : '\n' ∉ front) : lastLine front = front := by
  have all : ∀ c ∈ front.reverse, (c != '\n') = true := by
    intro c mem
    exact bne_iff_ne.2 fun same => free (same ▸ List.mem_reverse.1 mem)
  have whole : (front.reverse ++ []).takeWhile (· != '\n') = front.reverse :=
    takeWhile_run all nofun
  rw [List.append_nil] at whole
  rw [lastLine, whole, List.reverse_reverse]

/-- Behind a line feed another line starts. -/
theorem lastLine_feed (line rest : Text) : lastLine (line ++ '\n' :: rest) = lastLine rest := by
  have stops : ∀ first ∈ ('\n' :: line.reverse).head?, (first != '\n') = false := by
    rintro first ⟨⟩
    rfl
  rw [lastLine, lastLine, List.reverse_append, List.reverse_cons, List.append_assoc,
    List.singleton_append, takeWhile_append_of_stop rest.reverse stops]

/-- In front of the first line there may be more of it. -/
theorem lines_append_of_not_mem (free : '\n' ∉ front) (more : rest ≠ []) :
    Text.lines (front ++ rest) = (front ++ rest.lines.headD []) :: rest.lines.tail := by
  have lined : Text.lines rest ≠ [] := by
    intro none
    apply more
    rw [← Text.flatten_lines rest, none]
    rfl
  induction front with
  | nil =>
    obtain ⟨line, lines, divided⟩ := List.exists_cons_of_ne_nil lined
    rw [List.nil_append, divided]
    rfl
  | cons first front ih =>
    rw [List.mem_cons, not_or] at free
    have other : first ≠ '\n' := fun same => free.1 same.symm
    rw [List.cons_append, Text.lines, if_neg other, ih free.2]
    rfl

/-- A place that is not at the end of a text stands in one of the lines, behind the lines before
that one and its part in front of the place. -/
theorem exists_lineAround (front : Text) (more : rest ≠ []) : ∃ before after,
    Text.lines (front ++ rest) = before ++ lineAround front rest :: after ∧
      front = before.flatten ++ lastLine front := by
  induction front using Text.line_induction with
  | last front free =>
    rw [lineAround, lastLine_of_not_mem free]
    exact ⟨[], rest.lines.tail, lines_append_of_not_mem free more, rfl⟩
  | feed line front free ih =>
    obtain ⟨before, after, divided, whole⟩ := ih
    refine ⟨(line ++ ['\n']) :: before, after, ?_, ?_⟩
    · rw [List.append_assoc, List.cons_append, Text.lines_feed free, divided, lineAround,
        lineAround, lastLine_feed, List.cons_append]
    · rw [lastLine_feed, List.flatten_cons, List.append_assoc, List.append_assoc, ← whole]
      rfl

/-- A place lies in a comment exactly if the comment of its line starts before it. -/
theorem opensIn_iff (front rest : Text) : opensIn front = true ↔
    ∃ start ∈ start? (lineAround front rest), start < (lastLine front).byteLength := by
  rw [lineAround, exists_start?_lt_iff, opensIn, Bool.not_eq_true', Bool.eq_false_iff, Ne,
    List.isEmpty_iff]

end Lines

section Coverage

variable {text line : Text} {before after : List Text} {index : Nat}

/-- An offset stands in one line only. -/
theorem eq_of_lines {other : Text} {front behind : List Text} {inner : Nat}
    (same : before ++ line :: after = front ++ other :: behind) (inside : index < line.byteLength)
    (innerInside : inner < other.byteLength)
    (offset : Text.byteLength before.flatten + index = Text.byteLength front.flatten + inner) :
    line = other ∧ index = inner := by
  rcases List.append_eq_append_iff.1 same with ⟨more, rfl, rest⟩ | ⟨more, rfl, rest⟩
  · cases more with
    | nil =>
      rw [List.append_nil] at offset
      exact ⟨(List.cons.inj rest).1, by omega⟩
    | cons first more =>
      rw [List.flatten_append, List.flatten_cons, Text.byteLength_append, Text.byteLength_append,
        ← (List.cons.inj rest).1] at offset
      omega
  · cases more with
    | nil =>
      rw [List.append_nil] at offset
      exact ⟨(List.cons.inj rest).1.symm, by omega⟩
    | cons first more =>
      rw [List.flatten_append, List.flatten_cons, Text.byteLength_append, Text.byteLength_append,
        ← (List.cons.inj rest).1] at offset
      omega

/-- Of the bytes of a line those of the comment are covered, but for the line feed. -/
theorem covers_iff (divided : text.lines = before ++ line :: after)
    (inside : index < line.byteLength) :
    Covers text (Text.byteLength before.flatten + index) ↔
      (codeOf line).byteLength ≤ index ∧
        (encode text)[Text.byteLength before.flatten + index]? ≠ some lineFeed := by
  constructor
  · rintro ⟨front, other, behind, dividedSo, start, starts, isBehind, fits, noFeed⟩
    obtain ⟨inner, offset⟩ := Nat.exists_eq_add_of_le (Nat.le_of_add_right_le isBehind)
    have innerInside : inner < other.byteLength := by omega
    obtain ⟨rfl, rfl⟩ := eq_of_lines (divided.symm.trans dividedSo) inside innerInside offset
    obtain ⟨-, rfl⟩ := mem_start?_iff.1 starts
    exact ⟨by omega, noFeed⟩
  · rintro ⟨behind, noFeed⟩
    exact covers_of_lines divided inside behind noFeed

/-- A character that is no percent sign and no line feed is covered exactly if a comment is open in
front of it. -/
theorem covers_iff_opensIn {c : Char} (noPercent : c ≠ '%') (noFeed : c ≠ '\n')
    (front rest : Text) :
    Covers (front ++ c :: rest) front.byteLength ↔ opensIn front = true := by
  obtain ⟨before, after, divided, whole⟩ := exists_lineAround front (List.cons_ne_nil c rest)
  have firstLine : ∃ tail,
      Text.lines (c :: rest) = (c :: tail) :: (Text.lines (c :: rest)).tail := by
    rw [Text.lines, if_neg noFeed]
    split <;> exact ⟨_, rfl⟩
  obtain ⟨tail, isFirst⟩ := firstLine
  have around : lineAround front (c :: rest) = lastLine front ++ c :: tail := by
    rw [lineAround, isFirst]
    rfl
  have positive := c.utf8Size_pos
  have inside : (lastLine front).byteLength < (lineAround front (c :: rest)).byteLength := by
    rw [around, Text.byteLength_append, Text.byteLength_cons]
    omega
  have offset : front.byteLength =
      Text.byteLength before.flatten + (lastLine front).byteLength := by
    rw [← Text.byteLength_append, ← whole]
  have isCharacter : (encode (front ++ c :: rest))[front.byteLength]? ≠ some lineFeed := by
    have first : 0 < Text.byteLength [c] := by simpa using positive
    have byte := getElem?_encode_part front [c] rest first
    rw [List.singleton_append, Nat.add_zero] at byte
    rw [byte]
    intro isFeed
    have mem := List.mem_of_getElem? isFeed
    rw [Utf8.encode_cons, Utf8.encode_nil, List.append_nil] at mem
    exact Utf8.lineFeed_not_mem_encodeChar noFeed mem
  rw [opensIn_iff front (c :: rest), offset, covers_iff divided inside, ← offset,
    and_iff_left isCharacter]
  constructor
  · intro behind
    have nonempty : commentOf (lineAround front (c :: rest)) ≠ [] := by
      intro empty
      have code := codeOf_append_commentOf (lineAround front (c :: rest))
      rw [empty, List.append_nil] at code
      rw [code] at behind
      omega
    have starts := mem_start?_iff.2 ⟨nonempty, rfl⟩
    refine ⟨_, starts, Nat.lt_of_le_of_ne behind fun here => ?_⟩
    -- The comment would start with the character.
    obtain ⟨code, more, same, length, -⟩ := opensAt_of_start? starts
    rw [around] at same
    have sameLength : code.byteLength = (lastLine front).byteLength := length.trans here
    have percent : c :: tail = '%' :: more := by
      have fronts := Text.frontBytes_byteLength (lastLine front) (c :: tail)
      rw [same, ← sameLength, Text.frontBytes_byteLength] at fronts
      rw [fronts] at same
      exact List.append_cancel_left same
    exact noPercent (List.cons.inj percent).1
  · rintro ⟨start, starts, before⟩
    obtain ⟨-, rfl⟩ := mem_start?_iff.1 starts
    exact Nat.le_of_lt before

end Coverage

section Stripped

open Classical in
/-- The bytes of a text that no comment covers, in their order. -/
noncomputable def uncovered (text : Text) : List UInt8 :=
  ((encode text).zipIdx.filter fun (_, offset) => ¬Covers text offset).map Prod.fst

variable {text line : Text} {before after : List Text}

/-- A line has no line feed but the one that ends it. -/
theorem feed_of_mem_lines (mem : line ∈ text.lines) :
    ∃ inner, '\n' ∉ inner ∧ (line = inner ∨ line = inner ++ ['\n']) := by
  induction text using Text.line_induction with
  | last whole free =>
    by_cases empty : whole = []
    · rw [empty] at mem
      exact nomatch mem
    · rw [Text.lines_of_not_mem free empty, List.mem_singleton] at mem
      exact ⟨whole, free, .inl mem⟩
  | feed first rest free ih =>
    rw [Text.lines_feed free] at mem
    rcases List.mem_cons.1 mem with rfl | later
    · exact ⟨first, free, .inr rfl⟩
    · exact ih later

/-- The line feed that is left of the comment of a line is the only one in it. -/
theorem filter_feed_commentOf (mem : line ∈ text.lines) :
    (encode (commentOf line)).filter (· == lineFeed) =
      encode (if (commentOf line).getLast? = some '\n' then ['\n'] else []) := by
  have free {inner : Text} (none : '\n' ∉ inner) :
      (encode inner).filter (· == lineFeed) = [] := by
    rw [List.filter_eq_nil_iff]
    intro byte isByte isFeed
    obtain ⟨c, isCharacter, inCharacter⟩ := List.mem_flatMap.1 isByte
    rw [beq_iff_eq.1 isFeed] at inCharacter
    exact Utf8.lineFeed_not_mem_encodeChar (fun same => none (same ▸ isCharacter)) inCharacter
  have whole := codeOf_append_commentOf line
  obtain ⟨inner, none, rfl | isFed⟩ := feed_of_mem_lines mem
  · have absent : '\n' ∉ commentOf line := by
      intro feed
      apply none
      rw [← whole]
      exact List.mem_append_right _ feed
    rw [free absent, if_neg fun last => absent (List.mem_of_getLast? last)]
    rfl
  · rcases List.eq_nil_or_concat' (commentOf line) with empty | ⟨comment, last, isComment⟩
    · rw [empty]
      rfl
    · rw [isComment, ← List.append_assoc, isFed] at whole
      obtain ⟨same, isLast⟩ := List.append_inj' whole rfl
      obtain rfl := List.head_eq_of_cons_eq isLast
      have absent : '\n' ∉ comment := by
        intro feed
        apply none
        rw [← same]
        exact List.mem_append_right _ feed
      rw [isComment, List.getLast?_concat, if_pos rfl, Utf8.encode_append, List.filter_append,
        free absent]
      rfl

/-- A byte of a line, with its offset in the text, is covered if it belongs to the comment and is no
line feed. -/
theorem covers_iff_of_mem_zipIdx (divided : text.lines = before ++ line :: after) {byte : UInt8}
    {offset : Nat} (mem : (byte, offset) ∈ (encode line).zipIdx (Text.byteLength before.flatten)) :
    Covers text offset ↔
      Text.byteLength before.flatten + (codeOf line).byteLength ≤ offset ∧ byte ≠ lineFeed := by
  obtain ⟨behind, fits, isByte⟩ := List.mem_zipIdx mem
  obtain ⟨index, rfl⟩ := Nat.exists_eq_add_of_le behind
  have inside : index < line.byteLength := by
    rw [← Utf8.length_encode]
    omega
  have original := (getElem?_of_lines divided inside).1
  have found : (encode line)[index]? = some byte := by
    rw [isByte, List.getElem?_eq_some_iff]
    exact ⟨by rwa [Utf8.length_encode], by simp⟩
  rw [covers_iff divided inside, original, found, Ne, Option.some.injEq, Nat.add_le_add_iff_left]

open Classical in
/-- Removing the comment of a line keeps the bytes that are not covered. -/
theorem encode_stripLine_of_lines (divided : text.lines = before ++ line :: after) :
    encode (stripLine line) = (((encode line).zipIdx (Text.byteLength before.flatten)).filter
      fun (_, offset) => ¬Covers text offset).map Prod.fst := by
  have isLine : line ∈ text.lines := by
    rw [divided]
    exact List.mem_append_right _ (List.mem_cons_self ..)
  have covered {entry : UInt8 × Nat}
      (mem : entry ∈ (encode line).zipIdx (Text.byteLength before.flatten)) :
      Covers text entry.2 ↔
        Text.byteLength before.flatten + (codeOf line).byteLength ≤ entry.2 ∧
          entry.1 ≠ lineFeed :=
    covers_iff_of_mem_zipIdx divided mem
  rw [encode_line line, List.zipIdx_append] at covered ⊢
  have code : ((encode (codeOf line)).zipIdx (Text.byteLength before.flatten)).filter
      (fun (_, offset) => ¬Covers text offset) =
        (encode (codeOf line)).zipIdx (Text.byteLength before.flatten) := by
    refine List.filter_eq_self.2 fun entry mem => ?_
    have fits := (List.mem_zipIdx mem).2.1
    rw [Utf8.length_encode] at fits
    rw [decide_eq_true_iff, covered (List.mem_append_left _ mem)]
    omega
  have comment : ((encode (commentOf line)).zipIdx
      (Text.byteLength before.flatten + (encode (codeOf line)).length)).filter
        (fun (_, offset) => ¬Covers text offset) =
      ((encode (commentOf line)).zipIdx
        (Text.byteLength before.flatten + (encode (codeOf line)).length)).filter
          ((· == lineFeed) ∘ Prod.fst) := by
    refine List.filter_congr fun entry mem => ?_
    have behind := (List.mem_zipIdx mem).1
    rw [Utf8.length_encode] at behind
    rw [Bool.eq_iff_iff, decide_eq_true_iff, covered (List.mem_append_right _ mem),
      Function.comp_apply, beq_iff_eq]
    simp [behind]
  rw [List.filter_append, List.map_append, code, comment, ← List.filter_map, List.zipIdx_map_fst,
    List.zipIdx_map_fst, filter_feed_commentOf isLine, stripLine, Utf8.encode_append]

open Classical in
/-- Removing the comments of the lines that are left keeps the bytes that are not covered. -/
theorem encode_stripLines_of_lines (divided : text.lines = before ++ after) :
    encode (after.flatMap stripLine) =
      (((encode after.flatten).zipIdx (Text.byteLength before.flatten)).filter
        fun (_, offset) => ¬Covers text offset).map Prod.fst := by
  induction after generalizing before with
  | nil => rfl
  | cons line after ih =>
    have grouped : text.lines = (before ++ [line]) ++ after := by
      rw [divided, List.append_cons]
    have further := ih grouped
    have behind : Text.byteLength (before ++ [line]).flatten =
        Text.byteLength before.flatten + (encode line).length := by simp
    rw [behind] at further
    rw [List.flatMap_cons, List.flatten_cons, Utf8.encode_append, Utf8.encode_append,
      List.zipIdx_append, List.filter_append, List.map_append, further,
      encode_stripLine_of_lines divided]

/-- Removing the comments of percent signs leaves the bytes that no comment covers. -/
theorem encode_stripLines (text : Text) : encode (stripLines text) = uncovered text := by
  have divided : text.lines = [] ++ text.lines := rfl
  have lines := encode_stripLines_of_lines divided
  rw [Text.flatten_lines] at lines
  exact lines

end Stripped

section Commands

variable {α : Type} {reader : Reader α} {content : Text} {found : Found α}

/-- Commands that include a file are read at a backslash only. -/
theorem inclusion_readsCommands : inclusion.ReadsCommands :=
  ((Reader.guarded_controlWord _).thenFlatGroup _).readsCommands

/-- Commands that load packages are read at a backslash only. -/
theorem packageLoading_readsCommands : packageLoading.ReadsCommands := by
  have guarded (words : List Text) : (optionedWord words).Guarded words.contains := by
    intro text unread
    simp [optionedWord, Reader.andThen, unread]
  exact ((guarded _).thenFlatGroup _).readsCommands

/-- A command is passed over as commented exactly if its backslash is covered. -/
theorem not_mem_uncommented_iff (commands : reader.ReadsCommands)
    (mem : found ∈ reader.occurrences content) :
    found ∉ uncommented reader content ↔ Covers content (content.offsetOf found.place) := by
  obtain ⟨isSuffix, read⟩ := (reader.occurrences_ordered content).1 found mem
  obtain ⟨front, rfl⟩ := isSuffix
  obtain ⟨first, tail, place, -⟩ := reader.advances read
  have backslash : first = '\\' := commands.atCommand read first (by rw [place]; rfl)
  have covered := covers_iff_opensIn (c := '\\') (by decide) (by decide) front tail
  rw [← backslash, ← place] at covered
  rw [Text.offsetOf_append, covered, uncommented, List.mem_filter, and_iff_right mem,
    Text.before_append, Bool.not_eq_true', Bool.not_eq_false]

end Commands

/-- Inlining and removing comments agree on what is commented out. A place lies in a comment exactly
if the comment of its line starts before it; the line is one of those from which the line pass
removes the comments, and the pass leaves the bytes that no comment covers. So a command that
includes a file or loads packages is passed over exactly if the pass removes its first byte. And the
comment of a line starts at the least index that holds a percent sign behind an even number of
backslashes. -/
theorem commented_iff_stripped (content : Text) :
    (∀ front rest, content = front ++ rest →
      (opensIn front = true ↔
        ∃ start ∈ start? (lineAround front rest), start < (lastLine front).byteLength) ∧
      (rest ≠ [] → ∃ before after, content.lines = before ++ lineAround front rest :: after ∧
        front = before.flatten ++ lastLine front)) ∧
    encode (stripLines content) = uncovered content ∧
    (∀ found ∈ inclusion.occurrences content,
      found ∉ uncommented inclusion content ↔ Covers content (content.offsetOf found.place)) ∧
    (∀ found ∈ packageLoading.occurrences content,
      found ∉ uncommented packageLoading content ↔ Covers content (content.offsetOf found.place)) ∧
    ∀ line start, start? line = some start ↔
      OpensAt line start ∧ ∀ index < start, ¬OpensAt line index := by
  refine ⟨?_, encode_stripLines content, ?_, ?_, fun line start => start?_eq_some_iff⟩
  · rintro front rest rfl
    exact ⟨opensIn_iff front rest, exists_lineAround front⟩
  · exact fun found mem => not_mem_uncommented_iff inclusion_readsCommands mem
  · exact fun found mem => not_mem_uncommented_iff packageLoading_readsCommands mem

/-- Behind a percent sign that is escaped a command counts; behind one that follows two backslashes
it is passed over, and removed. -/
theorem commented_iff_stripped_backslashes :
    let content : Text := "50\\% \\input\x7ba\x7d \\\\% \\input\x7bb\x7d\nc".toList
    let place : Text := "\\input\x7bb\x7d\nc".toList
    (∃ found ∈ inclusion.occurrences content, found.place = place ∧
      found ∉ uncommented inclusion content) ∧
    Covers content (content.offsetOf place) ∧
    opensIn (content.before place) = true ∧
    lineAround (content.before place) place =
      "50\\% \\input\x7ba\x7d \\\\% \\input\x7bb\x7d\n".toList ∧
    ∃ start ∈ start? (lineAround (content.before place) place),
      start < (lastLine (content.before place)).byteLength := by
  intro content place
  have places : (inclusion.occurrences content).map (·.place) =
      ["\\input\x7ba\x7d \\\\% \\input\x7bb\x7d\nc".toList, place] := by decide +kernel
  have second : place ∈ (inclusion.occurrences content).map (·.place) := by
    rw [places]
    exact List.mem_cons_of_mem _ (List.mem_cons_self ..)
  obtain ⟨found, mem, isPlace⟩ := List.mem_map.1 second
  have opened : opensIn (content.before place) = true := by decide +kernel
  have passed : found ∉ uncommented inclusion content := by
    rw [uncommented, List.mem_filter, isPlace, opened]
    exact fun both => Bool.false_ne_true both.2
  obtain ⟨around, -, inclusions, -, -⟩ := commented_iff_stripped content
  have covered := (inclusions found mem).1 passed
  rw [isPlace] at covered
  have divided : content = content.before place ++ place :=
    (Text.before_append_suffix (by decide +kernel)).symm
  exact ⟨⟨found, mem, isPlace, passed⟩, covered, opened, by decide +kernel,
    (around _ _ divided).1.1 opened⟩

end Comment
end TexStatements
