import TexStatements.Failure

/-!
# Decoding of source bytes

Source files are UTF-8. Bytes that are not are taken for Latin-1, where every byte is a character.
A zero byte marks a binary file and is refused. A byte-order mark at the start is dropped.
-/
namespace TexStatements
namespace Utf8

/-- The six payload bits of a continuation byte. -/
def continuation? (byte : UInt8) : Option Nat :=
  if 0x80 ≤ byte ∧ byte < 0xC0 then some (byte.toNat - 0x80) else none

/-- What the first byte of a character says about it. -/
structure Lead where
  /-- Number of continuation bytes. -/
  continuations : Nat
  /-- The payload bits of the byte. -/
  payload : Nat
  /-- The least code point that needs so many bytes. -/
  least : Nat

/-- Read the first byte of a character. -/
def lead? (byte : UInt8) : Option Lead :=
  if byte < 0x80 then some ⟨0, byte.toNat, 0⟩
  else if byte < 0xC0 then none
  else if byte < 0xE0 then some ⟨1, byte.toNat - 0xC0, 0x80⟩
  else if byte < 0xF0 then some ⟨2, byte.toNat - 0xE0, 0x800⟩
  else if byte < 0xF8 then some ⟨3, byte.toNat - 0xF0, 0x10000⟩
  else none

/-- Append the payload of so many continuation bytes to a code point. -/
def extend? : Nat → Nat → List UInt8 → Option (Nat × List UInt8)
  | 0, code, bytes => some (code, bytes)
  | _ + 1, _, [] => none
  | count + 1, code, byte :: rest =>
    match continuation? byte with
    | some low => extend? count (code * 0x40 + low) rest
    | none => none

/-- Continuation bytes are consumed from the front. -/
theorem extend?_length {count code result : Nat} {bytes rest : List UInt8}
    (read : extend? count code bytes = some (result, rest)) : rest.length ≤ bytes.length := by
  induction count generalizing code bytes with
  | zero =>
    cases read
    exact Nat.le_refl _
  | succ count ih =>
    cases bytes with
    | nil => simp [extend?] at read
    | cons byte tail =>
      rw [extend?] at read
      split at read
      · exact Nat.le_succ_of_le (ih read)
      · simp at read

/-- The first character of UTF-8 bytes and the bytes after it. Encodings that are longer than
needed and surrogates are refused. -/
def char? : List UInt8 → Option (Char × List UInt8)
  | [] => none
  | first :: tail => do
    let lead ← lead? first
    let (code, rest) ← extend? lead.continuations lead.payload tail
    if code.isValidChar ∧ lead.least ≤ code then some (Char.ofNat code, rest) else none

/-- A character takes at least one byte. -/
theorem char?_length {bytes rest : List UInt8} {c : Char} (read : char? bytes = some (c, rest)) :
    rest.length < bytes.length := by
  cases bytes with
  | nil => simp [char?] at read
  | cons first tail =>
    simp only [char?, Option.bind_eq_bind, Option.bind_eq_some_iff] at read
    obtain ⟨lead, -, ⟨code, after⟩, extended, admitted⟩ := read
    split at admitted
    · cases admitted
      exact Nat.lt_succ_of_le (extend?_length extended)
    · simp at admitted

/-- The text that bytes encode in UTF-8; none if they do not. -/
def decode? (bytes : List UInt8) : Option Text :=
  match bytes with
  | [] => some []
  | first :: tail =>
    match _ : char? (first :: tail) with
    | some (c, rest) => (decode? rest).map (c :: ·)
    | none => none
termination_by bytes.length
decreasing_by
  rename_i read
  exact char?_length read

/-- The bytes that encode a text in UTF-8. -/
def encode (text : Text) : List UInt8 := text.flatMap String.utf8EncodeChar

end Utf8

/-- The text that bytes encode in Latin-1. -/
def decodeLatin1 (bytes : List UInt8) : Text := bytes.map fun byte => Char.ofNat byte.toNat

/-- The byte-order mark. -/
def byteOrderMark : Char := Char.ofNat 0xFEFF

/-- A text without the byte-order mark that may start it. -/
def dropByteOrderMark : Text → Text
  | [] => []
  | first :: rest => if first = byteOrderMark then rest else first :: rest

/-- Why bytes are no source text. -/
inductive DecodeFailure where
  /-- There is a zero byte at this offset. -/
  | zeroByte (offset : Nat)
deriving DecidableEq

/-- The failure of an extraction whose bytes are no source text. -/
def DecodeFailure.toFailure : DecodeFailure → Failure
  | zeroByte offset =>
    .encoding ("NUL byte at offset ".toList ++ numeral offset ++ ", input is not text".toList)

/-- Decode source bytes. -/
def decodeSource (bytes : List UInt8) : Except DecodeFailure Text :=
  match bytes.findIdx? (· = 0) with
  | some offset => .error (.zeroByte offset)
  | none => .ok (dropByteOrderMark ((Utf8.decode? bytes).getD (decodeLatin1 bytes)))

end TexStatements
