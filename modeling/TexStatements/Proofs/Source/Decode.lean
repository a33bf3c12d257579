import Mathlib.Algebra.Ring.Nat
import TexStatements.Proofs.Text.Bytes

/-!
# Decoded bytes

Decoding inverts encoding: bytes decode to a text exactly when they are its encoding
(`decode?_eq_some_iff`), so that the bytes taken for Latin-1 are those that encode no text. The
first byte of a character says how many payloads of six bits follow it, and every code point has one
such byte (`Opens`).
-/
namespace TexStatements
namespace Utf8

/-- The bytes that carry so many payloads of a code point, the most significant first. -/
def continuationBytes : Nat → Nat → List UInt8
  | 0, _ => []
  | count + 1, code => UInt8.ofNat (code / 64 ^ count % 64 + 0x80) :: continuationBytes count code

/-- What the first byte of a character says about it, by the number of payloads that follow. -/
inductive Opens (first : UInt8) : Lead → Prop where
  /-- A character of ASCII stands for itself. -/
  | single {payload : Nat} (small : payload < 0x80) (byte : first.toNat = payload) :
      Opens first ⟨0, payload, 0⟩
  /-- Five bits, and one payload. -/
  | double {payload : Nat} (small : payload < 0x20) (byte : first.toNat = payload + 0xC0) :
      Opens first ⟨1, payload, 0x80⟩
  /-- Four bits, and two payloads. -/
  | triple {payload : Nat} (small : payload < 0x10) (byte : first.toNat = payload + 0xE0) :
      Opens first ⟨2, payload, 0x800⟩
  /-- Three bits, and three payloads. -/
  | quadruple {payload : Nat} (small : payload < 0x08) (byte : first.toNat = payload + 0xF0) :
      Opens first ⟨3, payload, 0x10000⟩

section Bytes

variable {byte : UInt8} {number : Nat}

/-- A byte is that of its number. -/
theorem eq_ofNat_of_toNat (same : byte.toNat = number) : byte = UInt8.ofNat number := by
  rw [← same, UInt8.ofNat_toNat]

/-- The number of the byte of a small number. -/
theorem toNat_ofNat_of_lt (small : number < 256) : (UInt8.ofNat number).toNat = number := by
  rw [UInt8.toNat_ofNat', Nat.mod_eq_of_lt small]

/-- Six bits are read exactly from their continuation byte. -/
theorem continuation?_eq_some_iff {low : Nat} :
    continuation? byte = some low ↔ low < 64 ∧ byte = UInt8.ofNat (low + 0x80) := by
  simp only [continuation?, UInt8.le_iff_toNat_le, UInt8.lt_iff_toNat_lt, UInt8.reduceToNat]
  constructor
  · intro read
    split at read
    · obtain rfl := Option.some.inj read
      exact ⟨by omega, eq_ofNat_of_toNat (by omega)⟩
    · cases read
  · rintro ⟨small, rfl⟩
    rw [toNat_ofNat_of_lt (by omega), if_pos (by omega), Nat.add_sub_cancel]

/-- Payloads are read exactly from their continuation bytes; what was read before is what remains
of the code point without them. -/
theorem extend?_eq_some_iff {count before code : Nat} {bytes rest : List UInt8} :
    extend? count before bytes = some (code, rest) ↔
      code / 64 ^ count = before ∧ bytes = continuationBytes count code ++ rest := by
  induction count generalizing before bytes with
  | zero =>
    simp only [extend?, continuationBytes, Option.some.injEq, Prod.mk.injEq, Nat.pow_zero,
      Nat.div_one, List.nil_append]
    rw [@eq_comm _ before]
  | succ count ih =>
    have payload : code / 64 ^ (count + 1) = code / 64 ^ count / 64 := by
      rw [Nat.pow_succ, Nat.div_div_eq_div_mul]
    cases bytes with
    | nil => simp [extend?, continuationBytes]
    | cons byte tail =>
      rw [extend?, payload, continuationBytes, List.cons_append, List.cons.injEq]
      constructor
      · intro read
        split at read
        · rename_i low first
          obtain ⟨small, rfl⟩ := continuation?_eq_some_iff.1 first
          obtain ⟨high, rfl⟩ := ih.1 read
          have split : code / 64 ^ count / 64 = before ∧ code / 64 ^ count % 64 = low := by omega
          exact ⟨split.1, by rw [split.2], rfl⟩
        · cases read
      · rintro ⟨high, rfl, rfl⟩
        have read : continuation? (UInt8.ofNat (code / 64 ^ count % 64 + 0x80)) =
            some (code / 64 ^ count % 64) :=
          continuation?_eq_some_iff.2 ⟨Nat.mod_lt _ (by decide), rfl⟩
        rw [read]
        exact ih.2 ⟨by omega, rfl⟩

/-- What the first byte of a character says is read from its number. -/
theorem lead?_eq_some_iff {lead : Lead} : lead? byte = some lead ↔ Opens byte lead := by
  simp only [lead?, UInt8.lt_iff_toNat_lt, UInt8.reduceToNat]
  constructor
  · intro read
    split at read
    · cases read
      exact .single (by omega) rfl
    split at read
    · cases read
    split at read
    · cases read
      exact .double (by omega) (by omega)
    split at read
    · cases read
      exact .triple (by omega) (by omega)
    split at read
    · cases read
      exact .quadruple (by omega) (by omega)
    · cases read
  · intro opens
    cases opens with
    | single small code => rw [if_pos (by omega), code]
    | double small code =>
      rw [if_neg (by omega), if_neg (by omega), if_pos (by omega), code, Nat.add_sub_cancel]
    | triple small code =>
      rw [if_neg (by omega), if_neg (by omega), if_neg (by omega), if_pos (by omega), code,
        Nat.add_sub_cancel]
    | quadruple small code =>
      rw [if_neg (by omega), if_neg (by omega), if_neg (by omega), if_neg (by omega),
        if_pos (by omega), code, Nat.add_sub_cancel]

end Bytes

section Character

variable {c : Char} {first : UInt8} {lead : Lead} {bytes rest : List UInt8}

/-- The code points end below 0x110000. -/
theorem code_lt (c : Char) : c.val.toNat < 0x110000 := by
  rcases c.valid with below | between
  · exact Nat.lt_trans below (by decide)
  · exact between.2

/-- A first byte that says what the code point of a character needs opens its encoding. -/
theorem Opens.encodeChar_eq (opens : Opens first lead) (least : lead.least ≤ c.val.toNat)
    (payload : c.val.toNat / 64 ^ lead.continuations = lead.payload) :
    String.utf8EncodeChar c = first :: continuationBytes lead.continuations c.val.toNat := by
  unfold String.utf8EncodeChar
  dsimp only
  generalize c.val.toNat = code at least payload
  cases opens with
  | single small byte =>
    simp only [Nat.reducePow, Nat.div_one] at payload
    rw [if_pos (by omega), eq_ofNat_of_toNat byte, payload, continuationBytes]
  | double small byte =>
    simp only [Nat.reducePow] at least payload
    rw [if_neg (by omega), if_pos (by omega), eq_ofNat_of_toNat byte, payload,
      Nat.mod_eq_of_lt small]
    simp only [continuationBytes, Nat.reducePow, Nat.div_one]
  | triple small byte =>
    simp only [Nat.reducePow] at least payload
    rw [if_neg (by omega), if_neg (by omega), if_pos (by omega), eq_ofNat_of_toNat byte, payload,
      Nat.mod_eq_of_lt small]
    simp only [continuationBytes, Nat.reducePow, Nat.div_one]
  | quadruple small byte =>
    simp only [Nat.reducePow] at least payload
    rw [if_neg (by omega), if_neg (by omega), if_neg (by omega), eq_ofNat_of_toNat byte, payload,
      Nat.mod_eq_of_lt small]
    simp only [continuationBytes, Nat.reducePow, Nat.div_one]

/-- Every character has a first byte that says what its code point needs. -/
theorem exists_opens (c : Char) : ∃ first lead, Opens first lead ∧ lead.least ≤ c.val.toNat ∧
    c.val.toNat / 64 ^ lead.continuations = lead.payload := by
  have small := code_lt c
  generalize c.val.toNat = code at small
  rcases Nat.lt_or_ge code 0x80 with one | more
  · exact ⟨UInt8.ofNat code, ⟨0, code, 0⟩, .single one (toNat_ofNat_of_lt (by omega)),
      Nat.zero_le _, Nat.div_one code⟩
  rcases Nat.lt_or_ge code 0x800 with two | more
  · exact ⟨UInt8.ofNat (code / 64 + 0xC0), ⟨1, code / 64, 0x80⟩,
      .double (by omega) (toNat_ofNat_of_lt (by omega)), more, rfl⟩
  rcases Nat.lt_or_ge code 0x10000 with three | more
  · exact ⟨UInt8.ofNat (code / 4096 + 0xE0), ⟨2, code / 4096, 0x800⟩,
      .triple (by omega) (toNat_ofNat_of_lt (by omega)), more, rfl⟩
  · exact ⟨UInt8.ofNat (code / 262144 + 0xF0), ⟨3, code / 262144, 0x10000⟩,
      .quadruple (by omega) (toNat_ofNat_of_lt (by omega)), more, rfl⟩

/-- A character is read exactly from its encoding. -/
theorem char?_eq_some_iff :
    char? bytes = some (c, rest) ↔ bytes = String.utf8EncodeChar c ++ rest := by
  constructor
  · intro read
    cases bytes with
    | nil => simp [char?] at read
    | cons first tail =>
      simp only [char?, Option.bind_eq_bind, Option.bind_eq_some_iff] at read
      obtain ⟨lead, opens, ⟨code, after⟩, extended, admitted⟩ := read
      split at admitted
      · rename_i valid
        cases admitted
        obtain ⟨payload, rfl⟩ := extend?_eq_some_iff.1 extended
        have same : (Char.ofNat code).val.toNat = code := by
          rw [Char.ofNat, dif_pos valid.1]
          rfl
        rw [← same] at valid payload
        rw [(lead?_eq_some_iff.1 opens).encodeChar_eq valid.2 payload, same, List.cons_append]
      · cases admitted
  · rintro rfl
    obtain ⟨first, lead, opens, least, payload⟩ := exists_opens c
    have extended : extend? lead.continuations lead.payload
        (continuationBytes lead.continuations c.val.toNat ++ rest) = some (c.val.toNat, rest) :=
      extend?_eq_some_iff.2 ⟨payload, rfl⟩
    have valid : c.val.toNat.isValidChar := c.valid
    simp only [opens.encodeChar_eq least payload, List.cons_append, char?,
      lead?_eq_some_iff.2 opens, extended, Option.bind_eq_bind, Option.bind_some]
    rw [if_pos ⟨valid, least⟩]
    exact congrArg (fun read => some (read, rest)) (Char.ofNat_toNat c)

end Character

/-- A character that is read from bytes comes first in what they decode to. -/
theorem decode?_of_char? {bytes rest : List UInt8} {c : Char}
    (read : char? bytes = some (c, rest)) : decode? bytes = (decode? rest).map (c :: ·) := by
  cases bytes with
  | nil => simp [char?] at read
  | cons first tail =>
    rw [decode?]
    split
    · rename_i again
      cases again.symm.trans read
      rfl
    · rename_i failed
      cases failed.symm.trans read

/-- Bytes decode to a text exactly when they are its encoding. -/
theorem decode?_eq_some_iff {bytes : List UInt8} {text : Text} :
    decode? bytes = some text ↔ bytes = encode text := by
  constructor
  · intro decoded
    fun_induction decode? bytes generalizing text with
    | case1 =>
      cases decoded
      rfl
    | case2 first tail c rest read ih =>
      obtain ⟨more, later, rfl⟩ := Option.map_eq_some_iff.1 decoded
      rw [char?_eq_some_iff.1 read, ih later, encode_cons]
    | case3 first tail read => cases decoded
  · rintro rfl
    induction text with
    | nil => rw [encode_nil, decode?]
    | cons c text ih =>
      rw [encode_cons, decode?_of_char? (char?_eq_some_iff.2 rfl), ih, Option.map_some]

/-- Bytes that decode to no text are those that are not valid. -/
theorem decode?_eq_none_iff {bytes : List UInt8} :
    decode? bytes = none ↔ ¬bytes.toByteArray.IsValidUTF8 := by
  constructor
  · rintro undecoded ⟨text, encoded⟩
    have same : bytes = encode text := List.toByteArray_inj.1 encoded
    rw [decode?_eq_some_iff.2 same] at undecoded
    cases undecoded
  · intro invalid
    rw [Option.eq_none_iff_forall_ne_some]
    intro text decoded
    exact invalid ⟨text, congrArg List.toByteArray (decode?_eq_some_iff.1 decoded)⟩

end Utf8

section Latin1

/-- The character of a byte has its number. -/
theorem toNat_ofNat_byte (byte : UInt8) : (Char.ofNat byte.toNat).toNat = byte.toNat := by
  have valid : byte.toNat.isValidChar := .inl (Nat.lt_trans byte.toNat_lt (by decide))
  rw [Char.ofNat, dif_pos valid]
  rfl

/-- In Latin-1 every byte is the character of its number. -/
theorem map_toNat_decodeLatin1 (bytes : List UInt8) :
    (decodeLatin1 bytes).map Char.toNat = bytes.map UInt8.toNat := by
  rw [decodeLatin1, List.map_map]
  exact List.map_congr_left fun byte _ => toNat_ofNat_byte byte

/-- A text that does not start with the byte-order mark loses nothing. -/
theorem dropByteOrderMark_of_unmarked {text : Text}
    (unmarked : text.head? ≠ some byteOrderMark) : dropByteOrderMark text = text := by
  cases text with
  | nil => rfl
  | cons first rest => exact if_neg fun same => unmarked (congrArg some same)

/-- The byte-order mark is not a character of Latin-1. -/
theorem head?_decodeLatin1 (bytes : List UInt8) :
    (decodeLatin1 bytes).head? ≠ some byteOrderMark := by
  intro marked
  rw [decodeLatin1, List.head?_map] at marked
  obtain ⟨byte, -, same⟩ := Option.map_eq_some_iff.1 marked
  have code : byte.toNat = byteOrderMark.toNat := by rw [← same, toNat_ofNat_byte]
  have mark : byteOrderMark.toNat = 0xFEFF := by decide
  have small := byte.toNat_lt
  omega

end Latin1

section Source

variable {bytes before after : List UInt8} {text : Text}

/-- The first zero byte is reported with its offset. -/
theorem decodeSource_of_zero (free : 0 ∉ before) :
    decodeSource (before ++ 0 :: after) = .error (.zeroByte before.length) := by
  have found : (before ++ 0 :: after).findIdx? (· = 0) = some before.length := by
    have absent : before.findIdx? (· = 0) = none := by
      rw [List.findIdx?_eq_none_iff]
      intro byte mem
      exact decide_eq_false fun zero => free (zero ▸ mem)
    rw [List.findIdx?_append, absent, List.findIdx?_cons, if_pos (decide_eq_true rfl)]
    simp
  rw [decodeSource, found]

/-- Bytes without a zero are decoded in one of the two encodings. -/
theorem decodeSource_of_free (free : 0 ∉ bytes) :
    decodeSource bytes =
      .ok (dropByteOrderMark ((Utf8.decode? bytes).getD (decodeLatin1 bytes))) := by
  have absent : bytes.findIdx? (· = 0) = none := by
    rw [List.findIdx?_eq_none_iff]
    intro byte mem
    exact decide_eq_false fun zero => free (zero ▸ mem)
  rw [decodeSource, absent]

/-- The encoding of a text without the null character decodes to the text, but for the byte-order
mark that may start it. -/
theorem decodeSource_encode (free : '\x00' ∉ text) :
    decodeSource (Utf8.encode text) = .ok (dropByteOrderMark text) := by
  rw [decodeSource_of_free (Utf8.zero_not_mem_encode free), Utf8.decode?_eq_some_iff.2 rfl,
    Option.getD_some]

end Source

/-- Decoding fails exactly on bytes with a zero, and names the offset of the first one. Without
zeros it gives back the text that the bytes encode, less one byte-order mark at the start; bytes
that are not valid UTF-8 become a character each, with the number of the byte. -/
theorem decodeSource_inverts :
    (∀ bytes : List UInt8, (∃ failure, decodeSource bytes = .error failure) ↔ 0 ∈ bytes) ∧
    (∀ before after : List UInt8, 0 ∉ before →
      (decodeSource (before ++ 0 :: after)).mapError DecodeFailure.toFailure =
        .error (.encoding ("NUL byte at offset ".toList ++ numeral before.length ++
          ", input is not text".toList))) ∧
    (∀ text : Text, '\x00' ∉ text →
      decodeSource ([0xEF, 0xBB, 0xBF] ++ Utf8.encode text) = .ok text ∧
      (text.head? ≠ some byteOrderMark → decodeSource (Utf8.encode text) = .ok text) ∧
      ∀ rest, text = byteOrderMark :: rest → decodeSource (Utf8.encode text) = .ok rest) ∧
    (∀ bytes : List UInt8, 0 ∉ bytes → ¬bytes.toByteArray.IsValidUTF8 →
      ∃ text, decodeSource bytes = .ok text ∧ text.map Char.toNat = bytes.map UInt8.toNat) := by
  refine ⟨fun bytes => ?_, fun before after free => ?_, fun text free => ?_,
    fun bytes free invalid => ?_⟩
  · constructor
    · rintro ⟨failure, failed⟩
      by_cases zero : 0 ∈ bytes
      · exact zero
      · rw [decodeSource_of_free zero] at failed
        cases failed
    · intro zero
      obtain ⟨before, after, rfl, free⟩ := List.eq_append_cons_of_mem zero
      exact ⟨_, decodeSource_of_zero free⟩
  · rw [decodeSource_of_zero free]
    rfl
  · have mark : [0xEF, 0xBB, 0xBF] = String.utf8EncodeChar byteOrderMark := by decide
    have marked : '\x00' ∉ byteOrderMark :: text := by
      rw [List.mem_cons, not_or]
      exact ⟨by decide, free⟩
    refine ⟨?_, fun unmarked => ?_, ?_⟩
    · rw [mark, ← Utf8.encode_cons, decodeSource_encode marked]
      rfl
    · rw [decodeSource_encode free, dropByteOrderMark_of_unmarked unmarked]
    · rintro rest rfl
      rw [decodeSource_encode free]
      rfl
  · refine ⟨decodeLatin1 bytes, ?_, map_toNat_decodeLatin1 bytes⟩
    rw [decodeSource_of_free free, Utf8.decode?_eq_none_iff.2 invalid, Option.getD_none,
      dropByteOrderMark_of_unmarked (head?_decodeLatin1 bytes)]

/-- A second byte-order mark is kept. A surrogate, an overlong slash and a mark cut short are no
UTF-8. A zero is reported although the bytes before it are text. -/
theorem decodeSource_inverts_marks :
    decodeSource [0xEF, 0xBB, 0xBF, 0xEF, 0xBB, 0xBF, 0xC3, 0xB6] = .ok [byteOrderMark, 'ö'] ∧
    (∃ text, decodeSource [0xED, 0xA0, 0x80, 0xC0, 0xAF, 0xEF, 0xBB] = .ok text ∧
      text.map Char.toNat = [0xED, 0xA0, 0x80, 0xC0, 0xAF, 0xEF, 0xBB]) ∧
    (decodeSource [0x50, 0x4B, 0x00, 0x00]).mapError DecodeFailure.toFailure =
      .error (.encoding "NUL byte at offset 2, input is not text".toList) := by
  obtain ⟨-, refused, inverts, latin⟩ := decodeSource_inverts
  have invalid : ¬[0xED, 0xA0, 0x80, 0xC0, 0xAF, 0xEF, 0xBB].toByteArray.IsValidUTF8 :=
    Utf8.decode?_eq_none_iff.1 (by decide +kernel)
  exact ⟨(inverts [byteOrderMark, 'ö'] (by decide)).1, latin _ (by decide) invalid,
    refused [0x50, 0x4B] [0x00] (by decide)⟩

end TexStatements
