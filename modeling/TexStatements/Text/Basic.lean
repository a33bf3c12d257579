/-!
# Texts

A text is the list of its characters, and a place in a text is the suffix that starts there.
Every reader of the library takes a suffix and returns a later one, so that the text between
two places is recovered by `Text.before` and no index arithmetic is needed. Offsets in bytes
of the UTF-8 encoding appear only where they are reported: `Text.offsetOf` measures a suffix
and `Text.fromByte` finds one.
-/
namespace TexStatements

/-- A text, as its characters in order. -/
abbrev Text := List Char

/-- Texts are compared by their characters. -/
instance Text.instLawfulBEq : LawfulBEq Text := inferInstance

-- Without this instance a search over every character there is may be chosen.
/-- Whether something holds of all characters of a text is decided along the text. -/
instance Text.decidableForallMem (text : Text) (holds : Char → Prop) [DecidablePred holds] :
    Decidable (∀ c ∈ text, holds c) :=
  List.decidableBAll holds text

/-- Whether something holds of a character, if there is one, is decided at that character. -/
instance Text.decidableForallMemOption (found? : Option Char) (holds : Char → Prop)
    [DecidablePred holds] : Decidable (∀ c ∈ found?, holds c) :=
  Option.decidableForallMem found?

/-- Whether there is a character of which something holds is decided at that character. -/
instance Text.decidableExistsMemOption (found? : Option Char) (holds : Char → Prop)
    [DecidablePred holds] : Decidable (∃ c ∈ found?, holds c) :=
  Option.decidableExistsMem found?

/-- A later place of the same text: at least one character lies between the two. -/
def Text.Advances (text rest : Text) : Prop :=
  ∃ first tail, text = first :: tail ∧ rest <:+ tail

namespace Text

/-- Advancing shortens what is left to read. -/
theorem Advances.length_lt {text rest : Text} (advances : text.Advances rest) :
    rest.length < text.length := by
  obtain ⟨first, tail, rfl, suffix⟩ := advances
  have := suffix.length_le
  simp only [List.length_cons]
  omega

/-- Reading on after an advance is an advance. -/
theorem Advances.trans_suffix {text middle rest : Text} (advances : text.Advances middle)
    (suffix : rest <:+ middle) : text.Advances rest := by
  obtain ⟨first, tail, rfl, tailSuffix⟩ := advances
  exact ⟨first, tail, rfl, suffix.trans tailSuffix⟩

/-- A place reached by advancing is a place of the text. -/
theorem Advances.suffix {text rest : Text} (advances : text.Advances rest) : rest <:+ text := by
  obtain ⟨first, tail, rfl, suffix⟩ := advances
  exact suffix.trans (List.suffix_cons first tail)

/-- Number of bytes of the UTF-8 encoding. -/
def byteLength : Text → Nat
  | [] => 0
  | first :: rest => first.utf8Size + byteLength rest

/-- An empty text has no bytes. -/
@[simp] theorem byteLength_nil : byteLength [] = 0 := rfl

/-- The bytes of the first character are added to those of the others. -/
@[simp] theorem byteLength_cons (first : Char) (rest : Text) :
    byteLength (first :: rest) = first.utf8Size + byteLength rest := rfl

/-- The encoding of a joined text is the joined encodings. -/
@[simp] theorem byteLength_append (left right : Text) :
    byteLength (left ++ right) = byteLength left + byteLength right := by
  induction left with
  | nil => simp
  | cons first rest ih => simp [ih, Nat.add_assoc]

/-- The characters of a text that come before one of its suffixes. -/
def before (text suffix : Text) : Text := text.take (text.length - suffix.length)

/-- What comes before a suffix is exactly the front that the suffix completes. -/
@[simp] theorem before_append (front suffix : Text) : before (front ++ suffix) suffix = front := by
  simp [before]

/-- A text is what comes before a suffix followed by that suffix. -/
theorem before_append_suffix {text suffix : Text} (isSuffix : suffix <:+ text) :
    before text suffix ++ suffix = text := by
  obtain ⟨front, rfl⟩ := isSuffix
  rw [before_append]

/-- Byte offset of a suffix within a text of a number of bytes. -/
def offsetIn (bytes : Nat) (suffix : Text) : Nat := bytes - byteLength suffix

/-- Byte offset of a suffix within its text. -/
def offsetOf (text suffix : Text) : Nat := offsetIn (byteLength text) suffix

/-- The offset of a suffix counts the bytes before it. -/
@[simp] theorem offsetOf_append (front suffix : Text) :
    offsetOf (front ++ suffix) suffix = byteLength front := by
  simp [offsetOf, offsetIn]

/-- The suffix at a byte offset; an offset inside a character stands for the one after it. -/
def fromByte : Text → Nat → Text
  | text, 0 => text
  | [], _ + 1 => []
  | first :: rest, offset + 1 => fromByte rest (offset + 1 - first.utf8Size)

/-- The characters before a byte offset; one that the offset divides is among them. -/
def frontBytes : Text → Nat → Text
  | _, 0 => []
  | [], _ + 1 => []
  | first :: rest, offset + 1 => first :: frontBytes rest (offset + 1 - first.utf8Size)

/-- The characters before a byte offset and those behind it are the text. -/
theorem frontBytes_append_fromByte (text : Text) (offset : Nat) :
    frontBytes text offset ++ fromByte text offset = text := by
  induction text generalizing offset with
  | nil => cases offset <;> rfl
  | cons first rest ih =>
    cases offset with
    | zero => rfl
    | succ offset => simp [frontBytes, fromByte, ih]

/-- The characters before the offset of a suffix are the front that the suffix completes. -/
@[simp] theorem frontBytes_byteLength (front suffix : Text) :
    frontBytes (front ++ suffix) (byteLength front) = front := by
  induction front with
  | nil => cases suffix <;> rfl
  | cons first rest ih =>
    have positive := first.utf8Size_pos
    obtain ⟨more, size⟩ := Nat.exists_eq_succ_of_ne_zero (Nat.ne_of_gt positive)
    have step : byteLength (first :: rest) = (more + byteLength rest) + 1 := by
      rw [byteLength_cons, size]
      omega
    rw [step, List.cons_append, frontBytes, size]
    have left : more + byteLength rest + 1 - more.succ = byteLength rest := by omega
    rw [left, ih]

/-- Whether a byte offset lies between two characters, or at either end, of the text. -/
def isBoundary : Text → Nat → Bool
  | _, 0 => true
  | [], _ + 1 => false
  | first :: rest, offset + 1 =>
    first.utf8Size ≤ offset + 1 && isBoundary rest (offset + 1 - first.utf8Size)

/-- Read a fixed text from the front and return what follows it. -/
def dropLiteral? : Text → Text → Option Text
  | [], text => some text
  | _ :: _, [] => none
  | expected :: literal, first :: rest =>
    if expected = first then dropLiteral? literal rest else none

/-- A fixed text is read exactly from the texts that start with it. -/
theorem dropLiteral?_eq_some_iff {literal text rest : Text} :
    dropLiteral? literal text = some rest ↔ text = literal ++ rest := by
  induction literal generalizing text with
  | nil => simp [dropLiteral?]
  | cons expected literal ih =>
    cases text with
    | nil => simp [dropLiteral?]
    | cons first tail =>
      by_cases same : expected = first
      · simp [dropLiteral?, same, ih]
      · simp only [dropLiteral?, same, if_false, List.cons_append, List.cons.injEq, reduceCtorEq,
          false_iff, not_and]
        exact fun equal => absurd equal.symm same

/-- Whether a text starts with a fixed text. -/
def startsWith (text literal : Text) : Bool := (dropLiteral? literal text).isSome

/-- Whether a text ends with a fixed text. -/
def endsWith (text literal : Text) : Bool := startsWith text.reverse literal.reverse

/-- Cut a text at the first occurrence of a fixed text: what comes before it and after it. -/
def cut? (literal : Text) : Text → Option (Text × Text)
  | [] => (dropLiteral? literal []).map fun after => ([], after)
  | first :: rest =>
    match dropLiteral? literal (first :: rest) with
    | some after => some ([], after)
    | none => (cut? literal rest).map fun (front, after) => (first :: front, after)

/-- The two parts of a cut and the fixed text between them are the whole text. -/
theorem cut?_eq_append {literal text front after : Text}
    (found : cut? literal text = some (front, after)) : text = front ++ literal ++ after := by
  induction text generalizing front with
  | nil =>
    simp only [cut?, Option.map_eq_some_iff, Prod.mk.injEq] at found
    obtain ⟨rest, dropped, rfl, rfl⟩ := found
    simpa using dropLiteral?_eq_some_iff.1 dropped
  | cons first rest ih =>
    rw [cut?] at found
    split at found
    · rename_i tail dropped
      cases found
      simpa using dropLiteral?_eq_some_iff.1 dropped
    · simp only [Option.map_eq_some_iff, Prod.mk.injEq] at found
      obtain ⟨⟨inner, tail⟩, inside, rfl, rfl⟩ := found
      simp [ih inside]

/-- What follows the first occurrence of a fixed text is a suffix. -/
theorem cut?_suffix {literal text front after : Text}
    (found : cut? literal text = some (front, after)) : after <:+ text :=
  ⟨front ++ literal, (cut?_eq_append found).symm⟩

/-- The suffix that starts at the first occurrence of a fixed text. -/
def suffixAt? (literal text : Text) : Option Text :=
  (cut? literal text).map fun (_, after) => literal ++ after

/-- Whether a fixed text occurs anywhere in a text. -/
def contains (text literal : Text) : Bool := (cut? literal text).isSome

/-- The fields of a text between the characters at which it is divided; never empty. -/
def fields (divides : Char → Bool) : Text → List Text
  | [] => [[]]
  | first :: rest =>
    if divides first then [] :: fields divides rest
    else match fields divides rest with
      | [] => [[first]]
      | field :: more => (first :: field) :: more

/-- The lines of a text, each with the line feed that ends it; a last line may have none. -/
def lines : Text → List Text
  | [] => []
  | first :: rest =>
    if first = '\n' then [first] :: lines rest
    else match lines rest with
      | [] => [[first]]
      | line :: more => (first :: line) :: more

/-- The lines of a text, joined, are the text. -/
theorem flatten_lines (text : Text) : (lines text).flatten = text := by
  induction text with
  | nil => rfl
  | cons first rest ih =>
    rw [lines]
    split
    · simp [ih]
    · split
      · rename_i none
        rw [none] at ih
        simp [← ih]
      · rename_i line more some
        rw [some] at ih
        simp only [List.flatten_cons] at ih
        simp [← ih]

/-- The texts of a list with a separator between neighbours. -/
def join (separator : Text) : List Text → Text
  | [] => []
  | [text] => text
  | text :: next :: more => text ++ separator ++ join separator (next :: more)

/-- Lexicographic order by code point, which is also the order of the UTF-8 encodings. -/
def atMost : Text → Text → Bool
  | [], _ => true
  | _ :: _, [] => false
  | left :: lefts, right :: rights =>
    if left = right then atMost lefts rights else left.val ≤ right.val

/-- Texts in increasing order. -/
def sort (texts : List Text) : List Text := texts.mergeSort atMost

end Text

end TexStatements
