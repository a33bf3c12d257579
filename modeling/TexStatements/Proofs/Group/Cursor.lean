import TexStatements.Proofs.Group.Position
import TexStatements.Proofs.Text.Bytes

/-!
# Groups by bytes

A group can be closed without reading a character: a cursor goes over the bytes of the text, counts
the delimiters, and jumps over two bytes at a backslash. In a text with characters of several bytes
it stands inside of characters again and again, behind a backslash even without having seen their
first byte. It still stops where the reader of characters stops (`closing?_encode`), since the bytes
inside of a character are no delimiters.
-/
namespace TexStatements

namespace Utf8

/-- The byte of a backslash. -/
def backslash : UInt8 := 0x5C

/-- The byte of an opening brace. -/
def openingBrace : UInt8 := 0x7B

/-- The byte of a closing brace. -/
def closingBrace : UInt8 := 0x7D

/-- The byte of an opening bracket. -/
def openingBracket : UInt8 := 0x5B

/-- The byte of a closing bracket. -/
def closingBracket : UInt8 := 0x5D

/-- The bytes of a character behind its first one are none of ASCII. -/
theorem exists_encodeChar (c : Char) :
    ∃ first more, String.utf8EncodeChar c = first :: more ∧ ∀ byte ∈ more, 0x80 ≤ byte.toNat := by
  have high {number : Nat} (less : number < 256) (least : 0x80 ≤ number) :
      0x80 ≤ (UInt8.ofNat number).toNat := by
    rw [UInt8.toNat_ofNat', Nat.mod_eq_of_lt less]
    exact least
  unfold String.utf8EncodeChar
  dsimp only
  generalize c.val.toNat = number
  split
  · exact ⟨_, [], rfl, by simp⟩
  split
  · exact ⟨_, _, rfl, by simpa using high (by omega) (by omega)⟩
  split
  · refine ⟨_, _, rfl, ?_⟩
    simpa using ⟨high (by omega) (by omega), high (by omega) (by omega)⟩
  · refine ⟨_, _, rfl, ?_⟩
    simpa using ⟨high (by omega) (by omega), high (by omega) (by omega),
      high (by omega) (by omega)⟩

end Utf8

namespace Group

open Utf8

/-- Position of the byte that closes the given number of inner braces and one more, from a cursor
on. -/
def closingBraceFrom (bytes : List UInt8) (depth cursor : Nat) : Option Nat :=
  if inside : cursor < bytes.length then
    if bytes[cursor] = backslash then closingBraceFrom bytes depth (cursor + 2)
    else if bytes[cursor] = openingBrace then closingBraceFrom bytes (depth + 1) (cursor + 1)
    else if bytes[cursor] = closingBrace then
      match depth with
      | 0 => some cursor
      | depth + 1 => closingBraceFrom bytes depth (cursor + 1)
    else closingBraceFrom bytes depth (cursor + 1)
  else none
termination_by bytes.length - cursor

/-- Position of the byte that closes a brace group whose inside starts at a position. -/
def closingBrace? (bytes : List UInt8) (inside : Nat) : Option Nat :=
  closingBraceFrom bytes 0 inside

/-- The cursor only goes on. -/
theorem le_of_closingBraceFrom {bytes : List UInt8} {depth cursor closing : Nat}
    (closed : closingBraceFrom bytes depth cursor = some closing) : cursor ≤ closing := by
  fun_induction closingBraceFrom bytes depth cursor with
  | case1 depth cursor inside escape ih => exact Nat.le_of_add_right_le (ih closed)
  | case2 depth cursor inside _ opening ih => exact Nat.le_of_add_right_le (ih closed)
  | case3 cursor inside _ _ stop => exact Nat.le_of_eq (Option.some.inj closed)
  | case4 cursor inside _ _ stop depth ih => exact Nat.le_of_add_right_le (ih closed)
  | case5 depth cursor inside _ _ _ ih => exact Nat.le_of_add_right_le (ih closed)
  | case6 => cases closed

/-- Position of the byte that closes the given number of inner brackets and one more, from a cursor
on. A brace group is jumped over as a whole. -/
def closingBracketFrom (bytes : List UInt8) (depth cursor : Nat) : Option Nat :=
  if inside : cursor < bytes.length then
    if bytes[cursor] = backslash then closingBracketFrom bytes depth (cursor + 2)
    else if bytes[cursor] = openingBrace then
      match closed : closingBrace? bytes (cursor + 1) with
      | none => none
      | some closing => closingBracketFrom bytes depth (closing + 1)
    else if bytes[cursor] = openingBracket then closingBracketFrom bytes (depth + 1) (cursor + 1)
    else if bytes[cursor] = closingBracket then
      match depth with
      | 0 => some cursor
      | depth + 1 => closingBracketFrom bytes depth (cursor + 1)
    else closingBracketFrom bytes depth (cursor + 1)
  else none
termination_by bytes.length - cursor
decreasing_by
  all_goals first
    | omega
    | have := le_of_closingBraceFrom closed
      omega

/-- Position of the byte that closes a bracket group whose inside starts at a position. -/
def closingBracket? (bytes : List UInt8) (inside : Nat) : Option Nat :=
  closingBracketFrom bytes 0 inside

/-- A cursor over bytes steps over those that are no delimiters, and over a backslash together with
the byte behind it. -/
structure Steps (delimiters : Text) (bytes : List UInt8) (scan : Nat → Option Nat) : Prop where
  /-- The delimiters are characters of one byte. -/
  low : ∀ delimiter ∈ delimiters, delimiter.val.toNat < 0x80
  /-- Another byte is stepped over. -/
  plain : ∀ front byte tail, bytes = front ++ byte :: tail → byte ∉ encode delimiters →
    scan front.length = scan (front.length + 1)
  /-- A backslash is jumped over, and so is what is behind it. -/
  escape : ∀ front tail, bytes = front ++ backslash :: tail →
    scan front.length = scan (front.length + 2)
  /-- Nothing is found behind the bytes. -/
  beyond : ∀ cursor, bytes.length ≤ cursor → scan cursor = none

namespace Steps

variable {delimiters : Text} {bytes : List UInt8} {scan : Nat → Option Nat}

/-- A byte of a delimiter is the number of the delimiter. -/
theorem exists_delimiter (steps : Steps delimiters bytes scan) {byte : UInt8}
    (mem : byte ∈ encode delimiters) :
    ∃ delimiter ∈ delimiters, byte.toNat = delimiter.val.toNat := by
  obtain ⟨delimiter, isDelimiter, inside⟩ := List.mem_flatMap.1 mem
  have low := steps.low delimiter isDelimiter
  have single : String.utf8EncodeChar delimiter = [UInt8.ofNat delimiter.val.toNat] := by
    unfold String.utf8EncodeChar
    dsimp only
    rw [if_pos (by omega)]
  rw [single, List.mem_singleton] at inside
  refine ⟨delimiter, isDelimiter, ?_⟩
  rw [inside, UInt8.toNat_ofNat', Nat.mod_eq_of_lt (by omega)]

/-- A row of bytes without a delimiter is stepped over. -/
theorem run (steps : Steps delimiters bytes scan) {front row tail : List UInt8}
    (whole : bytes = front ++ (row ++ tail)) (plain : ∀ byte ∈ row, byte ∉ encode delimiters) :
    scan front.length = scan (front ++ row).length := by
  induction row generalizing front with
  | nil => rw [List.append_nil]
  | cons byte row ih =>
    have behind : bytes = (front ++ [byte]) ++ (row ++ tail) := by simp [whole]
    have step := steps.plain front byte (row ++ tail) whole (plain byte (List.mem_cons_self ..))
    have later := ih behind fun other mem => plain other (List.mem_cons_of_mem _ mem)
    rw [List.length_append, List.length_singleton] at later
    rw [step, later, List.append_assoc, List.singleton_append]

/-- A character that is no delimiter is stepped over, however many bytes it has. -/
theorem character (steps : Steps delimiters bytes scan) {front tail : Text} {c : Char}
    (whole : bytes = encode (front ++ c :: tail)) (plain : c ∉ delimiters) :
    scan (Text.byteLength front) = scan (Text.byteLength (front ++ [c])) := by
  have parts : bytes = encode front ++ (String.utf8EncodeChar c ++ encode tail) := by
    rw [whole, encode_append, encode_cons]
  have bytesPlain : ∀ byte ∈ String.utf8EncodeChar c, byte ∉ encode delimiters := by
    intro byte inside mem
    obtain ⟨delimiter, isDelimiter, value⟩ := steps.exists_delimiter mem
    have low := steps.low delimiter isDelimiter
    refine ascii_not_mem_encodeChar (by omega) (fun same => plain ?_) inside
    have equal : c = delimiter := Char.ext (UInt32.toNat_inj.1 (same.trans value))
    rwa [equal]
  have passed := steps.run parts bytesPlain
  rw [← length_encode, ← length_encode, encode_append, encode_cons, encode_nil, List.append_nil]
  exact passed

/-- A backslash is jumped over with the whole character behind it: the cursor comes to stand behind
the first byte of that character and steps over the others. -/
theorem escapedCharacter (steps : Steps delimiters bytes scan) {front tail : Text} {c : Char}
    (whole : bytes = encode (front ++ '\\' :: c :: tail)) :
    scan (Text.byteLength front) = scan (Text.byteLength (front ++ ['\\', c])) := by
  obtain ⟨first, more, encoded, high⟩ := exists_encodeChar c
  have parts : bytes = encode front ++ backslash :: (first :: more ++ encode tail) := by
    rw [whole, encode_append, encode_cons, encode_cons, encoded]
    rfl
  have behind : bytes = (encode front ++ [backslash, first]) ++ (more ++ encode tail) := by
    simp [parts]
  have bytesPlain : ∀ byte ∈ more, byte ∉ encode delimiters := by
    intro byte inside mem
    obtain ⟨delimiter, isDelimiter, value⟩ := steps.exists_delimiter mem
    have low := steps.low delimiter isDelimiter
    have least := high byte inside
    omega
  have jump := steps.escape _ _ parts
  have passed := steps.run behind bytesPlain
  have length : (encode front ++ [backslash, first]).length = (encode front).length + 2 := by simp
  have stop : encode (front ++ ['\\', c]) = encode front ++ [backslash, first] ++ more := by
    rw [encode_append, encode_cons, encode_cons, encode_nil, encoded]
    simp
    rfl
  rw [← length_encode, ← length_encode, stop, jump, ← length, passed]

/-- At a last backslash the cursor jumps over the end. -/
theorem lone (steps : Steps delimiters bytes scan) {front : Text}
    (whole : bytes = encode (front ++ ['\\'])) : scan (Text.byteLength front) = none := by
  have parts : bytes = encode front ++ backslash :: [] := whole.trans (encode_append _ _)
  have jump := steps.escape _ _ parts
  rw [← length_encode, jump]
  exact steps.beyond _ (by simp [parts])

/-- Behind the text there is nothing to find. -/
theorem atEnd (steps : Steps delimiters bytes scan) {front : Text}
    (whole : bytes = encode (front ++ [])) : scan (Text.byteLength front) = none :=
  steps.beyond _ (by simp [whole])

end Steps

section Closing

variable {bytes front tail : List UInt8} {byte : UInt8}

/-- What a cursor looking for a brace does at a byte. -/
theorem closingBraceFrom_append (depth : Nat) (whole : bytes = front ++ byte :: tail) :
    closingBraceFrom bytes depth front.length =
      if byte = backslash then closingBraceFrom bytes depth (front.length + 2)
      else if byte = openingBrace then closingBraceFrom bytes (depth + 1) (front.length + 1)
      else if byte = closingBrace then
        match depth with
        | 0 => some front.length
        | depth + 1 => closingBraceFrom bytes depth (front.length + 1)
      else closingBraceFrom bytes depth (front.length + 1) := by
  have inside : front.length < bytes.length := by simp [whole]
  have here : bytes[front.length] = byte := by simp [whole]
  rw [closingBraceFrom.eq_def bytes depth front.length, dif_pos inside, here]

/-- What a cursor looking for a bracket does at a byte. -/
theorem closingBracketFrom_append (depth : Nat) (whole : bytes = front ++ byte :: tail) :
    closingBracketFrom bytes depth front.length =
      if byte = backslash then closingBracketFrom bytes depth (front.length + 2)
      else if byte = openingBrace then
        match closingBrace? bytes (front.length + 1) with
        | none => none
        | some closing => closingBracketFrom bytes depth (closing + 1)
      else if byte = openingBracket then closingBracketFrom bytes (depth + 1) (front.length + 1)
      else if byte = closingBracket then
        match depth with
        | 0 => some front.length
        | depth + 1 => closingBracketFrom bytes depth (front.length + 1)
      else closingBracketFrom bytes depth (front.length + 1) := by
  have inside : front.length < bytes.length := by simp [whole]
  have here : bytes[front.length] = byte := by simp [whole]
  rw [closingBracketFrom.eq_def bytes depth front.length, dif_pos inside, here]
  split
  · rfl
  split
  · split
    · rename_i none
      rw [none]
    · rename_i some
      rw [some]
  rfl

/-- A cursor looking for a brace steps over everything but backslashes and braces. -/
theorem steps_closingBraceFrom (bytes : List UInt8) (depth : Nat) :
    Steps ['\\', '{', '}'] bytes (closingBraceFrom bytes depth) where
  low := by decide
  plain front byte tail whole plain := by
    have others : byte ∉ [backslash, openingBrace, closingBrace] := plain
    simp only [List.mem_cons, List.not_mem_nil, or_false, not_or] at others
    rw [closingBraceFrom_append depth whole, if_neg others.1, if_neg others.2.1, if_neg others.2.2]
  escape front tail whole := by rw [closingBraceFrom_append depth whole, if_pos rfl]
  beyond cursor behind := by rw [closingBraceFrom.eq_def, dif_neg (Nat.not_lt.2 behind)]

/-- A cursor looking for a bracket steps over everything but backslashes, brackets and opening
braces. -/
theorem steps_closingBracketFrom (bytes : List UInt8) (depth : Nat) :
    Steps ['\\', '{', '[', ']'] bytes (closingBracketFrom bytes depth) where
  low := by decide
  plain front byte tail whole plain := by
    have others : byte ∉ [backslash, openingBrace, openingBracket, closingBracket] := plain
    simp only [List.mem_cons, List.not_mem_nil, or_false, not_or] at others
    rw [closingBracketFrom_append depth whole, if_neg others.1, if_neg others.2.1,
      if_neg others.2.2.1, if_neg others.2.2.2]
  escape front tail whole := by rw [closingBracketFrom_append depth whole, if_pos rfl]
  beyond cursor behind := by rw [closingBracketFrom.eq_def, dif_neg (Nat.not_lt.2 behind)]

end Closing

section Texts

variable (front tail : Text) (depth : Nat)

/-- An opening brace is one more to close. -/
theorem closingBraceFrom_opening :
    closingBraceFrom (encode (front ++ '{' :: tail)) depth (Text.byteLength front) =
      closingBraceFrom (encode (front ++ '{' :: tail)) (depth + 1)
        (Text.byteLength (front ++ ['{'])) := by
  have whole : encode (front ++ '{' :: tail) = encode front ++ openingBrace :: encode tail :=
    encode_append _ _
  have step := closingBraceFrom_append depth whole
  rw [if_neg (by decide), if_pos rfl, length_encode] at step
  rw [step, Text.byteLength_append]
  rfl

/-- A closing brace closes an inner one. -/
theorem closingBraceFrom_closing :
    closingBraceFrom (encode (front ++ '}' :: tail)) (depth + 1) (Text.byteLength front) =
      closingBraceFrom (encode (front ++ '}' :: tail)) depth
        (Text.byteLength (front ++ ['}'])) := by
  have whole : encode (front ++ '}' :: tail) = encode front ++ closingBrace :: encode tail :=
    encode_append _ _
  have step := closingBraceFrom_append (depth + 1) whole
  rw [if_neg (by decide), if_neg (by decide), if_pos rfl, length_encode] at step
  rw [step, Text.byteLength_append]
  rfl

/-- A closing brace is found where no inner one is open. -/
theorem closingBraceFrom_stop :
    closingBraceFrom (encode (front ++ '}' :: tail)) 0 (Text.byteLength front) =
      some (Text.byteLength front) := by
  have whole : encode (front ++ '}' :: tail) = encode front ++ closingBrace :: encode tail :=
    encode_append _ _
  have step := closingBraceFrom_append 0 whole
  rw [if_neg (by decide), if_neg (by decide), if_pos rfl, length_encode] at step
  exact step

/-- An opening bracket is one more to close. -/
theorem closingBracketFrom_opening :
    closingBracketFrom (encode (front ++ '[' :: tail)) depth (Text.byteLength front) =
      closingBracketFrom (encode (front ++ '[' :: tail)) (depth + 1)
        (Text.byteLength (front ++ ['['])) := by
  have whole : encode (front ++ '[' :: tail) = encode front ++ openingBracket :: encode tail :=
    encode_append _ _
  have step := closingBracketFrom_append depth whole
  rw [if_neg (by decide), if_neg (by decide), if_pos rfl, length_encode] at step
  rw [step, Text.byteLength_append]
  rfl

/-- A closing bracket closes an inner one. -/
theorem closingBracketFrom_closing :
    closingBracketFrom (encode (front ++ ']' :: tail)) (depth + 1) (Text.byteLength front) =
      closingBracketFrom (encode (front ++ ']' :: tail)) depth
        (Text.byteLength (front ++ [']'])) := by
  have whole : encode (front ++ ']' :: tail) = encode front ++ closingBracket :: encode tail :=
    encode_append _ _
  have step := closingBracketFrom_append (depth + 1) whole
  rw [if_neg (by decide), if_neg (by decide), if_neg (by decide), if_pos rfl,
    length_encode] at step
  rw [step, Text.byteLength_append]
  rfl

/-- A closing bracket is found where no inner one is open. -/
theorem closingBracketFrom_stop :
    closingBracketFrom (encode (front ++ ']' :: tail)) 0 (Text.byteLength front) =
      some (Text.byteLength front) := by
  have whole : encode (front ++ ']' :: tail) = encode front ++ closingBracket :: encode tail :=
    encode_append _ _
  have step := closingBracketFrom_append 0 whole
  rw [if_neg (by decide), if_neg (by decide), if_neg (by decide), if_pos rfl,
    length_encode] at step
  exact step

end Texts

/-- The offset of what is read behind a piece of text counts the piece. -/
theorem map_byteLength_push (front piece : Text) (result : Option (Text × Text)) :
    (push piece result).map (fun found => Text.byteLength (front ++ found.1)) =
      result.map fun found => Text.byteLength (front ++ piece ++ found.1) := by
  cases result with
  | none => rfl
  | some found => simp [push]

/-- The cursor stops at the brace at which the reader of characters stops. -/
theorem closingBraceFrom_encode (front tail : Text) (depth : Nat) :
    closingBraceFrom (encode (front ++ tail)) depth (Text.byteLength front) =
      (closeBracesFrom depth tail).map fun found => Text.byteLength (front ++ found.1) := by
  fun_induction closeBracesFrom depth tail generalizing front with
  | case1 depth => exact (steps_closingBraceFrom _ depth).atEnd rfl
  | case2 depth => exact (steps_closingBraceFrom _ depth).lone rfl
  | case3 depth c tail ih =>
    have steps := steps_closingBraceFrom (encode (front ++ '\\' :: c :: tail)) depth
    have later := ih (front ++ ['\\', c])
    rw [List.append_assoc] at later
    rw [steps.escapedCharacter rfl, map_byteLength_push]
    exact later
  | case4 depth tail _ ih =>
    have later := ih (front ++ ['{'])
    rw [List.append_assoc] at later
    rw [closingBraceFrom_opening, map_byteLength_push]
    exact later
  | case5 tail =>
    rw [closingBraceFrom_stop]
    simp
  | case6 tail depth _ _ ih =>
    have later := ih (front ++ ['}'])
    rw [List.append_assoc] at later
    rw [closingBraceFrom_closing, map_byteLength_push]
    exact later
  | case7 depth first tail noEscape noOpening noClosing ih =>
    have steps := steps_closingBraceFrom (encode (front ++ first :: tail)) depth
    have plain : first ∉ ['\\', '{', '}'] := by simp [noEscape, noOpening, noClosing]
    have later := ih (front ++ [first])
    rw [List.append_assoc] at later
    rw [steps.character rfl plain, map_byteLength_push]
    exact later

/-- A piece in front of what is read first stays in front. -/
theorem bind_push (front : Text) (result : Option (Text × Text))
    (next : Text → Option (Text × Text)) :
    ((push front result).bind fun found => push (found.1 ++ ['}']) (next found.2)) =
      push front (result.bind fun found => push (found.1 ++ ['}']) (next found.2)) := by
  cases result with
  | none => rfl
  | some found => simp [push, Function.comp_def]

/-- A brace group inside of brackets is read like any other, and then the reading of the brackets
goes on. -/
theorem closeBracketsFrom_eq_bind (brackets depth : Nat) (tail : Text) :
    closeBracketsFrom brackets (depth + 1) tail =
      (closeBracesFrom depth tail).bind fun found =>
        push (found.1 ++ ['}']) (closeBracketsFrom brackets 0 found.2) := by
  fun_induction closeBracesFrom depth tail with
  | case1 => rw [closeBracketsFrom.eq_def]; rfl
  | case2 => rw [closeBracketsFrom.eq_def]; rfl
  | case3 depth c tail ih =>
    rw [bind_push, ← ih]
    exact passes_escapedInBrackets brackets (depth + 1) c tail
  | case4 depth tail _ ih =>
    rw [bind_push, ← ih]
    exact passes_openingBrace brackets (depth + 1) tail
  | case5 tail => exact passes_closingBrace brackets 0 tail
  | case6 tail depth _ _ ih =>
    rw [bind_push, ← ih]
    exact passes_closingBrace brackets (depth + 1) tail
  | case7 depth first tail noEscape noOpening noClosing ih =>
    rw [bind_push, ← ih]
    exact passes_plainInBraces brackets depth noEscape noOpening noClosing tail

/-- A cursor looking for a bracket jumps over a brace group that is closed. -/
theorem closingBracketFrom_braces (front tail : Text) (depth : Nat) :
    closingBracketFrom (encode (front ++ '{' :: tail)) depth (Text.byteLength front) =
      (closeBracesFrom 0 tail).bind fun found =>
        closingBracketFrom (encode (front ++ '{' :: tail)) depth
          (Text.byteLength (front ++ ['{'] ++ found.1 ++ ['}'])) := by
  have whole : encode (front ++ '{' :: tail) = encode front ++ openingBrace :: encode tail :=
    encode_append _ _
  have step := closingBracketFrom_append depth whole
  have nested := closingBraceFrom_encode (front ++ ['{']) tail 0
  have inside : Text.byteLength (front ++ ['{']) = Text.byteLength front + 1 :=
    Text.byteLength_append _ _
  rw [if_neg (by decide), if_pos rfl, length_encode, closingBrace?, ← inside] at step
  rw [List.append_assoc, List.singleton_append] at nested
  rw [step, nested]
  cases closeBracesFrom 0 tail with
  | none => rfl
  | some found =>
    rw [Option.bind_some, Text.byteLength_append (front ++ ['{'] ++ found.1)]
    rfl

/-- The cursor stops at the bracket at which the reader of characters stops. -/
theorem closingBracketFrom_encode (front tail : Text) (depth : Nat) :
    closingBracketFrom (encode (front ++ tail)) depth (Text.byteLength front) =
      (closeBracketsFrom depth 0 tail).map fun found => Text.byteLength (front ++ found.1) := by
  -- A brace group is passed over as a whole, so what is left is shorter by more than a character.
  induction size : tail.length using Nat.strongRecOn generalizing front tail depth with
  | ind length ih =>
    subst size
    cases tail with
    | nil =>
      rw [(steps_closingBracketFrom _ depth).atEnd rfl, closeBracketsFrom.eq_def]
      rfl
    | cons first tail =>
      have next (depth : Nat) :=
        ih tail.length (Nat.lt_succ_self _) (front ++ [first]) tail depth rfl
      rw [List.append_assoc] at next
      by_cases escape : first = '\\'
      · subst escape
        cases tail with
        | nil =>
          rw [(steps_closingBracketFrom _ depth).lone rfl, closeBracketsFrom.eq_def]
          rfl
        | cons c tail =>
          have steps := steps_closingBracketFrom (encode (front ++ '\\' :: c :: tail)) depth
          have passed : closeBracketsFrom depth 0 ('\\' :: c :: tail) =
              push ['\\', c] (closeBracketsFrom depth 0 tail) :=
            passes_escapedInBrackets depth 0 c tail
          have shorter : tail.length < ('\\' :: c :: tail).length :=
            Nat.lt_succ_of_lt (Nat.lt_succ_self _)
          have later := ih tail.length shorter (front ++ ['\\', c]) tail depth rfl
          rw [List.append_assoc] at later
          rw [steps.escapedCharacter rfl, passed, map_byteLength_push]
          exact later
      by_cases brace : first = '{'
      · subst brace
        have passed : closeBracketsFrom depth 0 ('{' :: tail) =
            push ['{'] (closeBracketsFrom depth 1 tail) := passes_openingBrace depth 0 tail
        rw [closingBracketFrom_braces, passed, map_byteLength_push, closeBracketsFrom_eq_bind]
        cases closed : closeBracesFrom 0 tail with
        | none => rfl
        | some found =>
          obtain ⟨inner, rest⟩ := found
          have parts := closeBracesFrom_eq_append closed
          have shorter : rest.length < ('{' :: tail).length := by
            simp only [parts, List.length_append, List.length_cons]
            omega
          have later :=
            ih rest.length shorter (front ++ ['{'] ++ inner ++ ['}']) rest depth rfl
          have whole : front ++ ['{'] ++ inner ++ ['}'] ++ rest = front ++ '{' :: tail := by
            simp [parts]
          rw [whole] at later
          rw [Option.bind_some, Option.bind_some, map_byteLength_push, later, ← List.append_assoc]
      by_cases opening : first = '['
      · subst opening
        have passed : closeBracketsFrom depth 0 ('[' :: tail) =
            push ['['] (closeBracketsFrom (depth + 1) 0 tail) := passes_openingBracket depth tail
        rw [closingBracketFrom_opening, passed, map_byteLength_push]
        exact next (depth + 1)
      by_cases closing : first = ']'
      · subst closing
        cases depth with
        | zero =>
          rw [closingBracketFrom_stop, closeBracketsFrom_stop]
          simp
        | succ depth =>
          have passed : closeBracketsFrom (depth + 1) 0 (']' :: tail) =
              push [']'] (closeBracketsFrom depth 0 tail) := passes_closingBracket depth tail
          rw [closingBracketFrom_closing, passed, map_byteLength_push]
          exact next depth
      have steps := steps_closingBracketFrom (encode (front ++ first :: tail)) depth
      have plain : first ∉ ['\\', '{', '[', ']'] := by simp [escape, brace, opening, closing]
      have passed : closeBracketsFrom depth 0 (first :: tail) =
          push [first] (closeBracketsFrom depth 0 tail) :=
        passes_plainInBrackets depth escape brace opening closing tail
      rw [steps.character rfl plain, passed, map_byteLength_push]
      exact next depth

/-- Position of the byte that closes a group whose inside starts at a position. -/
def closing? : Delimiters → List UInt8 → Nat → Option Nat
  | .braces => closingBrace?
  | .brackets => closingBracket?

/-- The cursor stops at the delimiter at which the reader of characters stops. -/
theorem closing?_append (delimiters : Delimiters) (front tail : Text) :
    closing? delimiters (encode (front ++ tail)) (Text.byteLength front) =
      (delimiters.close? tail).map fun found => Text.byteLength (front ++ found.1) := by
  cases delimiters with
  | braces => exact closingBraceFrom_encode front tail 0
  | brackets => exact closingBracketFrom_encode front tail 0

end Group

namespace Text

open TexStatements.Group Utf8

variable {text : Text} {start : Nat}

/-- From an offset between characters on, bytes and characters lead to the same closing
delimiter. -/
theorem closing?_encode (delimiters : Delimiters) (boundary : text.isBoundary start = true) :
    closing? delimiters (encode text) start = text.closingAt? delimiters start := by
  obtain ⟨front, tail, rfl, rfl⟩ := isBoundary_iff.1 boundary
  rw [closing?_append, closingAt?, fromByte_byteLength]
  refine Option.map_congr fun found closed => ?_
  rw [Delimiters.close?_eq_append closed, ← List.append_assoc]
  exact (offsetOf_append (front ++ found.1) (delimiters.closing :: found.2)).symm

end Text
end TexStatements
