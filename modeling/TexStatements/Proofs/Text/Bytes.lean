import TexStatements.Source.Decode

/-!
# Bytes of texts

The bytes of a text are those of its characters in a row, so offsets that count the bytes of a front
are positions in them. The only character with the byte of a line feed is the line feed.
-/
namespace TexStatements
namespace Utf8

/-- The byte of a line feed. -/
def lineFeed : UInt8 := 10

/-- The byte of a space. -/
def space : UInt8 := 32

/-- An empty text has no bytes. -/
@[simp] theorem encode_nil : encode [] = [] := rfl

/-- The bytes of the first character stand in front of the others. -/
@[simp] theorem encode_cons (first : Char) (rest : Text) :
    encode (first :: rest) = String.utf8EncodeChar first ++ encode rest := rfl

/-- The bytes of a joined text are the joined bytes. -/
@[simp] theorem encode_append (left right : Text) :
    encode (left ++ right) = encode left ++ encode right := List.flatMap_append

/-- A text has as many bytes as its offsets count. -/
@[simp] theorem length_encode (text : Text) : (encode text).length = text.byteLength := by
  induction text with
  | nil => rfl
  | cons first rest ih =>
    rw [encode_cons, List.length_append, String.length_utf8EncodeChar, ih, Text.byteLength_cons]

/-- A space is one byte. -/
@[simp] theorem encodeChar_space : String.utf8EncodeChar ' ' = [space] := rfl

/-- Spaces are as many bytes. -/
theorem encode_replicate_space (count : Nat) :
    encode (List.replicate count ' ') = List.replicate count space := by
  induction count with
  | zero => rfl
  | succ count ih =>
    rw [List.replicate_succ, encode_cons, ih, encodeChar_space, List.replicate_succ,
      List.singleton_append]

/-- The byte of a character of ASCII is in the encoding of no other character. -/
theorem ascii_not_mem_encodeChar {c : Char} {byte : UInt8} (ascii : byte.toNat < 0x80)
    (other : c.val.toNat ≠ byte.toNat) : byte ∉ String.utf8EncodeChar c := by
  have differs {number : Nat} (less : number < 256) (different : number ≠ byte.toNat) :
      byte ≠ UInt8.ofNat number := by
    intro same
    have values := congrArg UInt8.toNat same
    rw [UInt8.toNat_ofNat', Nat.mod_eq_of_lt less] at values
    exact different values.symm
  unfold String.utf8EncodeChar
  dsimp only
  generalize c.val.toNat = number at other
  split
  · simp only [List.mem_singleton]
    exact differs (by omega) other
  split
  · simp only [List.mem_cons, List.not_mem_nil, or_false, not_or]
    exact ⟨differs (by omega) (by omega), differs (by omega) (by omega)⟩
  split
  · simp only [List.mem_cons, List.not_mem_nil, or_false, not_or]
    exact ⟨differs (by omega) (by omega), differs (by omega) (by omega),
      differs (by omega) (by omega)⟩
  · simp only [List.mem_cons, List.not_mem_nil, or_false, not_or]
    exact ⟨differs (by omega) (by omega), differs (by omega) (by omega),
      differs (by omega) (by omega), differs (by omega) (by omega)⟩

/-- No other character has the byte of a line feed. -/
theorem lineFeed_not_mem_encodeChar {c : Char} (other : c ≠ '\n') :
    lineFeed ∉ String.utf8EncodeChar c :=
  ascii_not_mem_encodeChar (by decide) fun same => other (Char.ext (UInt32.toNat_inj.1 same))

/-- A text without the null character has no zero byte. -/
theorem zero_not_mem_encode {text : Text} (free : '\x00' ∉ text) : 0 ∉ encode text := by
  intro inside
  obtain ⟨c, mem, byte⟩ := List.mem_flatMap.1 inside
  have other : c ≠ '\x00' := fun same => free (same ▸ mem)
  exact ascii_not_mem_encodeChar (by decide)
    (fun same => other (Char.ext (UInt32.toNat_inj.1 same))) byte

end Utf8
end TexStatements
