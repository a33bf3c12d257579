import TexStatements.Proofs.Comment.Scan
import TexStatements.Proofs.Text.Bytes

/-!
# Masked comments

Masking keeps every byte where it is. A byte of a comment becomes a space, all other bytes stay as
they are, and so do the line feeds that end the comments (`masks_mask`). A word without a space
that a masked text has somewhere is at the same place in the text itself (`Blanked.exists_front`).
-/
namespace TexStatements
namespace Comment

open Utf8 (encode lineFeed space)

/-- The byte at an offset belongs to a comment: it stands in a line, where the comment of the line
starts or behind, and is not the line feed that ends the line. -/
def Covers (text : Text) (offset : Nat) : Prop :=
  ∃ before line after, text.lines = before ++ line :: after ∧
    ∃ start ∈ start? line, Text.byteLength before.flatten + start ≤ offset ∧
      offset < Text.byteLength before.flatten + line.byteLength ∧
      (encode text)[offset]? ≠ some lineFeed

/-- A text with spaces for the bytes of its comments. -/
structure Masks (text masked : Text) : Prop where
  /-- There are as many bytes. -/
  length : (encode masked).length = (encode text).length
  /-- The line feeds are where they were. -/
  feeds : ∀ offset : Nat, (encode masked)[offset]? = some lineFeed ↔
    (encode text)[offset]? = some lineFeed
  /-- Outside the comments every byte is as it was. -/
  outside : ∀ offset : Nat, ¬Covers text offset → (encode masked)[offset]? = (encode text)[offset]?
  /-- In the comments every byte is a space. -/
  inside : ∀ offset : Nat, Covers text offset → (encode masked)[offset]? = some space

/-- The byte that stands in a masked text for one behind the start of a comment. -/
def hidden (byte : UInt8) : UInt8 := if byte = lineFeed then lineFeed else space

section Bytes

variable {text line : Text} {index offset : Nat}

/-- The bytes of a masked comment are hidden one by one. -/
theorem encode_hidden (comment : Text) :
    encode (comment.flatMap fun c => if c = '\n' then [c] else List.replicate c.utf8Size ' ') =
      (encode comment).map hidden := by
  induction comment with
  | nil => rfl
  | cons first rest ih =>
    rw [List.flatMap_cons, Utf8.encode_append, ih, Utf8.encode_cons, List.map_append]
    congr 1
    by_cases feed : first = '\n'
    · subst feed
      rfl
    · have blank : (String.utf8EncodeChar first).map hidden =
          (String.utf8EncodeChar first).map fun _ => space := by
        refine List.map_congr_left fun byte mem => if_neg ?_
        rintro rfl
        exact Utf8.lineFeed_not_mem_encodeChar feed mem
      rw [if_neg feed, Utf8.encode_replicate_space, blank, List.map_const',
        String.length_utf8EncodeChar]

/-- The bytes of a masked line are those of its code and, hidden, those of its comment. -/
theorem encode_maskLine (line : Text) :
    encode (maskLine line) = encode (codeOf line) ++ (encode (commentOf line)).map hidden := by
  rw [maskLine, Utf8.encode_append, encode_hidden]

/-- The bytes of a line are those of its code and its comment. -/
theorem encode_line (line : Text) :
    encode line = encode (codeOf line) ++ encode (commentOf line) := by
  rw [← Utf8.encode_append, codeOf_append_commentOf]

/-- A masked line has as many bytes. -/
theorem byteLength_maskLine (line : Text) : (maskLine line).byteLength = line.byteLength := by
  rw [← Utf8.length_encode, ← Utf8.length_encode, encode_maskLine, encode_line line,
    List.length_append, List.length_append, List.length_map]

/-- Masked lines have as many bytes. -/
theorem byteLength_maskLines (lines : List Text) :
    Text.byteLength (lines.flatMap maskLine) = Text.byteLength lines.flatten := by
  induction lines with
  | nil => rfl
  | cons line more ih =>
    rw [List.flatMap_cons, List.flatten_cons, Text.byteLength_append, Text.byteLength_append,
      byteLength_maskLine, ih]

/-- A byte of a masked line is kept in front of the comment and hidden behind its start. -/
theorem getElem?_maskLine (line : Text) (index : Nat) :
    (encode (maskLine line))[index]? =
      if (codeOf line).byteLength ≤ index then (encode line)[index]?.map hidden
      else (encode line)[index]? := by
  rw [encode_maskLine, encode_line line]
  by_cases inComment : (codeOf line).byteLength ≤ index
  · rw [if_pos inComment, List.getElem?_append_right (by simpa using inComment),
      List.getElem?_append_right (by simpa using inComment), List.getElem?_map]
  · have inCode : index < (encode (codeOf line)).length := by
      rw [Utf8.length_encode]
      omega
    rw [if_neg inComment, List.getElem?_append_left inCode, List.getElem?_append_left inCode]

/-- The bytes of a part of a text stand behind those of the front. -/
theorem getElem?_encode_part (front part rest : Text) (inside : index < part.byteLength) :
    (encode (front ++ (part ++ rest)))[front.byteLength + index]? = (encode part)[index]? := by
  rw [Utf8.encode_append, Utf8.encode_append, List.getElem?_append_right (by simp),
    Utf8.length_encode, Nat.add_sub_cancel_left, List.getElem?_append_left (by simpa using inside)]

/-- The bytes of a line in the text, and in the masked text. -/
theorem getElem?_of_lines {before after : List Text}
    (divided : text.lines = before ++ line :: after) (inside : index < line.byteLength) :
    (encode text)[Text.byteLength before.flatten + index]? = (encode line)[index]? ∧
      (encode (mask text))[Text.byteLength before.flatten + index]? =
        (encode (maskLine line))[index]? := by
  constructor
  · rw [← Text.flatten_lines text, divided, List.flatten_append, List.flatten_cons]
    exact getElem?_encode_part _ _ _ inside
  · rw [mask, divided, List.flatMap_append, List.flatMap_cons, ← byteLength_maskLines]
    exact getElem?_encode_part _ _ _ (by rwa [byteLength_maskLine])

/-- Every byte stands in a line. -/
theorem exists_line {lines : List Text} (inside : offset < Text.byteLength lines.flatten) :
    ∃ before line after, lines = before ++ line :: after ∧ ∃ index,
      index < line.byteLength ∧ offset = Text.byteLength before.flatten + index := by
  induction lines generalizing offset with
  | nil => exact absurd inside (Nat.not_lt_zero _)
  | cons line more ih =>
    by_cases here : offset < line.byteLength
    · exact ⟨[], line, more, rfl, offset, here, by simp⟩
    · rw [List.flatten_cons, Text.byteLength_append] at inside
      have later : offset - line.byteLength < Text.byteLength more.flatten := by omega
      obtain ⟨before, found, after, rfl, index, less, same⟩ := ih later
      refine ⟨line :: before, found, after, rfl, index, less, ?_⟩
      rw [List.flatten_cons, Text.byteLength_append]
      omega

/-- The comment of a line starts behind its code, if there is a comment. -/
theorem mem_start?_iff {start : Nat} :
    start ∈ start? line ↔ commentOf line ≠ [] ∧ start = (codeOf line).byteLength := by
  unfold start?
  split
  · rename_i empty
    simp [List.isEmpty_iff.1 empty]
  · rename_i nonempty
    rw [List.isEmpty_iff] at nonempty
    rw [Option.mem_some, eq_comm, and_iff_right nonempty]

/-- A byte behind the start of a comment is in the comment, unless it is the line feed. -/
theorem covers_of_lines {before after : List Text}
    (divided : text.lines = before ++ line :: after) (inside : index < line.byteLength)
    (behind : (codeOf line).byteLength ≤ index)
    (noFeed : (encode text)[Text.byteLength before.flatten + index]? ≠ some lineFeed) :
    Covers text (Text.byteLength before.flatten + index) := by
  have nonempty : commentOf line ≠ [] := by
    intro empty
    have whole := codeOf_append_commentOf line
    rw [empty, List.append_nil] at whole
    rw [whole] at behind
    omega
  refine ⟨before, line, after, divided, _, mem_start?_iff.2 ⟨nonempty, rfl⟩, ?_, ?_, noFeed⟩
  · omega
  · omega

/-- Masking keeps the number of bytes. -/
theorem length_encode_mask (text : Text) : (encode (mask text)).length = (encode text).length := by
  rw [Utf8.length_encode, Utf8.length_encode, mask, byteLength_maskLines, Text.flatten_lines]

/-- A byte of a comment is masked by a space. -/
theorem getElem?_mask_of_covers (covered : Covers text offset) :
    (encode (mask text))[offset]? = some space := by
  obtain ⟨before, line, after, divided, start, starts, behind, fits, noFeed⟩ := covered
  obtain ⟨-, rfl⟩ := mem_start?_iff.1 starts
  obtain ⟨index, rfl⟩ := Nat.exists_eq_add_of_le (Nat.le_of_add_right_le behind)
  have inLine : index < line.byteLength := by omega
  have inComment : (codeOf line).byteLength ≤ index := by omega
  have byte : index < (encode line).length := by rwa [Utf8.length_encode]
  obtain ⟨original, masked⟩ := getElem?_of_lines divided inLine
  rw [original, List.getElem?_eq_getElem byte, ne_eq, Option.some.injEq] at noFeed
  rw [masked, getElem?_maskLine, if_pos inComment, List.getElem?_eq_getElem byte,
    Option.map_some, hidden, if_neg noFeed]

/-- Where a masked text has a byte that is no space there is no comment. -/
theorem not_covers_of_mask_eq {front rest : Text} {c : Char}
    (divided : mask text = front ++ c :: rest)
    (sharp : (String.utf8EncodeChar c)[0]? ≠ some space) : ¬Covers text front.byteLength := by
  intro covered
  have masked := getElem?_mask_of_covers covered
  have fits : 0 < Text.byteLength [c] := by simpa using c.utf8Size_pos
  have byte := getElem?_encode_part front [c] rest fits
  rw [List.singleton_append, ← divided, Nat.add_zero, masked] at byte
  exact sharp (by simpa using byte.symm)

/-- Any other byte is kept. -/
theorem getElem?_mask_of_not_covers (uncovered : ¬Covers text offset) :
    (encode (mask text))[offset]? = (encode text)[offset]? := by
  by_cases fits : offset < text.byteLength
  · rw [← Text.flatten_lines text] at fits
    obtain ⟨before, line, after, divided, index, inLine, rfl⟩ := exists_line fits
    obtain ⟨original, masked⟩ := getElem?_of_lines divided inLine
    rw [masked, getElem?_maskLine]
    split
    · -- Behind the start of a comment only the line feed is not covered.
      rename_i behind
      by_cases feed : (encode text)[Text.byteLength before.flatten + index]? = some lineFeed
      · rw [feed, ← original, feed, Option.map_some]
        rfl
      · exact absurd (covers_of_lines divided inLine behind feed) uncovered
    · exact original.symm
  · have beyond : (encode text).length ≤ offset := by
      rw [Utf8.length_encode]
      omega
    rw [List.getElem?_eq_none beyond, List.getElem?_eq_none]
    rwa [length_encode_mask]

end Bytes

/-- A masked text has spaces for the bytes of the comments of the text, and nothing else is
changed. -/
theorem masks_mask (text : Text) : Masks text (mask text) where
  length := length_encode_mask text
  feeds offset := by
    by_cases covered : Covers text offset
    · have noFeed : (encode text)[offset]? ≠ some lineFeed := by
        obtain ⟨-, -, -, -, -, -, -, -, noFeed⟩ := covered
        exact noFeed
      rw [getElem?_mask_of_covers covered]
      exact ⟨fun same => absurd (Option.some.inj same) (by decide), fun feed => absurd feed noFeed⟩
    · rw [getElem?_mask_of_not_covers covered]
  outside _ := getElem?_mask_of_not_covers
  inside _ := getElem?_mask_of_covers

/-- A text in which some characters have become spaces, one for each byte. -/
inductive Blanked : Text → Text → Prop
  /-- Nothing. -/
  | nil : Blanked [] []
  /-- A character that is kept. -/
  | kept (c : Char) {text masked : Text} (further : Blanked text masked) :
    Blanked (c :: text) (c :: masked)
  /-- A character that has become spaces. -/
  | spaces (c : Char) {text masked : Text} (further : Blanked text masked) :
    Blanked (c :: text) (List.replicate c.utf8Size ' ' ++ masked)

namespace Blanked

variable {text masked other rest front : Text}

/-- Nothing need become spaces. -/
theorem refl (text : Text) : Blanked text text := by
  induction text with
  | nil => exact .nil
  | cons first rest ih => exact .kept first ih

/-- Texts in a row. -/
theorem append (blanked : Blanked text masked) (further : Blanked other rest) :
    Blanked (text ++ other) (masked ++ rest) := by
  induction blanked with
  | nil => exact further
  | kept c _ ih => exact .kept c ih
  | spaces c _ ih =>
    rw [List.append_assoc]
    exact .spaces c ih

/-- There are as many bytes. -/
theorem byteLength_eq (blanked : Blanked text masked) :
    masked.byteLength = text.byteLength := by
  have blanks (count : Nat) : Text.byteLength (List.replicate count ' ') = count := by
    rw [← Utf8.length_encode, Utf8.encode_replicate_space, List.length_replicate]
  induction blanked with
  | nil => rfl
  | kept c _ ih => rw [Text.byteLength_cons, Text.byteLength_cons, ih]
  | spaces c _ ih => rw [Text.byteLength_append, blanks, Text.byteLength_cons, ih]

/-- A character that has become spaces is none that is read. -/
theorem exists_cons {c : Char} (blanked : Blanked text (c :: rest)) (sharp : c ≠ ' ') :
    ∃ tail, text = c :: tail ∧ Blanked tail rest := by
  generalize whole : c :: rest = masked at blanked
  cases blanked with
  | nil => cases whole
  | kept first further =>
    cases whole
    exact ⟨_, rfl, further⟩
  | spaces first further =>
    obtain ⟨count, size⟩ := Nat.exists_eq_succ_of_ne_zero (Nat.ne_of_gt first.utf8Size_pos)
    rw [size, List.replicate_succ, List.cons_append] at whole
    exact absurd (List.cons.inj whole).1 sharp

/-- A word without a space is in the text as it is. -/
theorem exists_word {word : Text} (blanked : Blanked text (word ++ rest)) (sharp : ' ' ∉ word) :
    ∃ tail, text = word ++ tail ∧ Blanked tail rest := by
  induction word generalizing text with
  | nil => exact ⟨text, rfl, blanked⟩
  | cons first word ih =>
    rw [List.mem_cons, not_or] at sharp
    obtain ⟨tail, rfl, further⟩ := exists_cons blanked (Ne.symm sharp.1)
    obtain ⟨behind, rfl, last⟩ := ih further sharp.2
    exact ⟨behind, rfl, last⟩

/-- A text is divided where the masked one is, in front of a character that is no space. -/
theorem exists_append {c : Char} (blanked : Blanked text masked)
    (divided : masked = front ++ c :: rest) (sharp : c ≠ ' ') :
    ∃ before tail, text = before ++ tail ∧ Blanked before front ∧ Blanked tail (c :: rest) := by
  induction blanked generalizing front with
  | nil => simp at divided
  | kept first further ih =>
    cases front with
    | nil =>
      rw [List.nil_append] at divided
      rw [← divided]
      exact ⟨[], _, rfl, .nil, .kept first further⟩
    | cons second front =>
      obtain ⟨rfl, later⟩ := List.cons.inj divided
      obtain ⟨before, tail, rfl, blankedBefore, blankedTail⟩ := ih later
      exact ⟨first :: before, tail, rfl, .kept first blankedBefore, blankedTail⟩
  | spaces first further ih =>
    rcases List.append_eq_append_iff.1 divided with ⟨front, rfl, later⟩ | ⟨blanks, inside, later⟩
    · obtain ⟨before, tail, rfl, blankedBefore, blankedTail⟩ := ih later
      exact ⟨first :: before, tail, rfl, .spaces first blankedBefore, blankedTail⟩
    · cases blanks with
      | nil =>
        rw [← List.nil_append (c :: rest)] at later
        obtain ⟨before, tail, rfl, blankedBefore, blankedTail⟩ := ih later.symm
        rw [List.append_nil] at inside
        refine ⟨first :: before, tail, rfl, ?_, blankedTail⟩
        rw [← inside, ← List.append_nil (List.replicate _ _)]
        exact .spaces first blankedBefore
      | cons second blanks =>
        -- The character would be one of the spaces.
        have mem : c ∈ List.replicate first.utf8Size ' ' := by
          rw [inside, (List.cons.inj later).1]
          exact List.mem_append_right _ List.mem_cons_self
        exact absurd (List.eq_of_mem_replicate mem) sharp

/-- A word without a space stands in the text at the byte offset at which it stands in the masked
text. -/
theorem exists_front {first : Char} {word : Text} (blanked : Blanked text masked)
    (divided : masked = front ++ (first :: word ++ rest)) (sharp : ' ' ∉ first :: word) :
    ∃ before tail, text = before ++ (first :: word ++ tail) ∧
      before.byteLength = front.byteLength := by
  have sharpFirst : first ≠ ' ' := fun same => sharp (by simp [same])
  obtain ⟨before, tail, rfl, blankedBefore, blankedTail⟩ :=
    blanked.exists_append divided sharpFirst
  obtain ⟨behind, rfl, -⟩ := exists_word blankedTail sharp
  exact ⟨before, behind, rfl, blankedBefore.byteLength_eq.symm⟩

end Blanked

/-- Masking turns characters into spaces. -/
theorem blanked_mask (text : Text) : Blanked text (mask text) := by
  have comment (comment : Text) : Blanked comment (comment.flatMap fun c =>
      if c = '\n' then [c] else List.replicate c.utf8Size ' ') := by
    induction comment with
    | nil => exact .nil
    | cons first rest ih =>
      rw [List.flatMap_cons]
      split
      · exact .kept first ih
      · exact .spaces first ih
  have line (line : Text) : Blanked line (maskLine line) := by
    have divided := (Blanked.refl (codeOf line)).append (comment (commentOf line))
    rwa [codeOf_append_commentOf] at divided
  have lines (lines : List Text) : Blanked lines.flatten (lines.flatMap maskLine) := by
    induction lines with
    | nil => exact .nil
    | cons first more ih => exact (line first).append ih
  have whole := lines text.lines
  rwa [Text.flatten_lines] at whole

end Comment
end TexStatements
