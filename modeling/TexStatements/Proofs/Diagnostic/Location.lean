import Mathlib.Data.List.Induction
import TexStatements.Diagnostic.Check
import TexStatements.Proofs.Text.Bytes

/-!
# Locations

The location of a byte offset is looked up in the offsets at which lines start. It is the place
behind the bytes in front of the offset: one line further for every line feed among them, and one
column further for every byte behind the last of these. So different offsets have different
locations.
-/
namespace TexStatements

open Utf8 (lineFeed)

namespace Location

/-- The place behind some bytes. -/
def behind (front : List UInt8) : Location where
  line := 1 + front.count lineFeed
  column := 1 + (front.reverse.takeWhile (· != lineFeed)).length

/-- Offsets at which the lines of some bytes start, the first at the given one. -/
def startsFrom (start offset : Nat) : List UInt8 → List Nat
  | [] => [start]
  | byte :: rest =>
    if byte = lineFeed then start :: startsFrom (offset + 1) (offset + 1) rest
    else startsFrom start (offset + 1) rest

section Starts

variable {start offset : Nat} {front rest : List UInt8} {byte : UInt8}

/-- No line starts behind bytes without a line feed. -/
theorem startsFrom_append (free : lineFeed ∉ front) (start offset : Nat) (rest : List UInt8) :
    startsFrom start offset (front ++ rest) = startsFrom start (offset + front.length) rest := by
  induction front generalizing offset with
  | nil => rfl
  | cons byte front ih =>
    rw [List.mem_cons, not_or] at free
    rw [List.cons_append, startsFrom, if_neg (Ne.symm free.1), ih free.2, List.length_cons,
      Nat.add_assoc, Nat.add_comm 1]

/-- The first line starts where it is said to, and the others behind the bytes that are read. -/
theorem startsFrom_eq_cons (start offset : Nat) (bytes : List UInt8) :
    ∃ later, startsFrom start offset bytes = start :: later ∧ ∀ next ∈ later, offset < next := by
  induction bytes generalizing start offset with
  | nil => exact ⟨[], rfl, by simp⟩
  | cons byte rest ih =>
    rw [startsFrom]
    split
    · obtain ⟨later, starts, behind⟩ := ih (offset + 1) (offset + 1)
      refine ⟨_, rfl, ?_⟩
      rw [starts, List.forall_mem_cons]
      exact ⟨Nat.lt_succ_self offset, fun next mem => Nat.lt_of_succ_lt (behind next mem)⟩
    · obtain ⟨later, starts, behind⟩ := ih start (offset + 1)
      exact ⟨later, starts, fun next mem => Nat.lt_of_succ_lt (behind next mem)⟩

/-- The lines that start up to an offset are those of the bytes in front of it. -/
theorem takeWhile_startsFrom (before : start ≤ offset) (front rest : List UInt8) :
    (startsFrom start offset (front ++ rest)).takeWhile (· ≤ offset + front.length) =
      startsFrom start offset front := by
  induction front generalizing start offset with
  | nil =>
    obtain ⟨later, starts, behind⟩ := startsFrom_eq_cons start offset rest
    have stops : later.takeWhile (· ≤ offset) = [] := by
      cases later with
      | nil => rfl
      | cons next later =>
        have beyond := behind next (List.mem_cons_self ..)
        exact List.takeWhile_cons_of_neg (by simpa using beyond)
    rw [List.nil_append, starts, List.length_nil, Nat.add_zero,
      List.takeWhile_cons_of_pos (by simpa using before), stops, startsFrom]
  | cons byte front ih =>
    have further : offset + (byte :: front).length = offset + 1 + front.length := by
      rw [List.length_cons]
      omega
    rw [further, List.cons_append, startsFrom, startsFrom]
    split
    · have passed : start ≤ offset + 1 + front.length := by omega
      rw [List.takeWhile_cons_of_pos (by simpa using passed), ih (Nat.le_refl _)]
    · exact ih (Nat.le_succ_of_le before)

/-- A line feed at the end starts one more line. -/
theorem startsFrom_concat (start offset : Nat) (front : List UInt8) (byte : UInt8) :
    startsFrom start offset (front ++ [byte]) =
      if byte = lineFeed then startsFrom start offset front ++ [offset + front.length + 1]
      else startsFrom start offset front := by
  induction front generalizing start offset with
  | nil => rfl
  | cons first front ih =>
    have further : offset + 1 + front.length + 1 = offset + (first :: front).length + 1 := by
      rw [List.length_cons]
      omega
    rw [List.cons_append, startsFrom, startsFrom]
    split
    · rw [ih, further]
      split <;> rfl
    · rw [ih, further]

/-- Every line feed starts a line. -/
theorem length_startsFrom (start offset : Nat) (front : List UInt8) :
    (startsFrom start offset front).length = 1 + front.count lineFeed := by
  induction front generalizing start offset with
  | nil => rfl
  | cons byte front ih =>
    rw [startsFrom, List.count_cons]
    by_cases same : byte = lineFeed
    · rw [if_pos same, if_pos (beq_iff_eq.2 same), List.length_cons, ih, Nat.add_assoc]
    · rw [if_neg same, if_neg (by simpa using same), ih, Nat.add_zero]

/-- From the start of the last line on there is no line feed. -/
theorem getLastD_startsFrom (offset : Nat) (front : List UInt8) :
    (startsFrom offset offset front).getLastD 0 +
      (front.reverse.takeWhile (· != lineFeed)).length = offset + front.length := by
  induction front using List.reverseRecOn with
  | nil => rfl
  | append_singleton front byte ih =>
    rw [startsFrom_concat, List.reverse_append, List.length_append]
    by_cases same : byte = lineFeed
    · simp [same, Nat.add_assoc]
    · simp only [same, if_false, List.reverse_singleton, List.singleton_append, bne_iff_ne, ne_eq,
        not_false_eq_true, List.takeWhile_cons_of_pos, List.length_cons, List.length_nil]
      omega

end Starts

/-- The lines of a text start where those of its bytes do. -/
theorem lineStartsFrom_eq (start offset : Nat) (text : Text) :
    lineStartsFrom start offset text = startsFrom start offset (Utf8.encode text) := by
  induction text generalizing start offset with
  | nil => rfl
  | cons first rest ih =>
    rw [lineStartsFrom, Utf8.encode_cons]
    by_cases same : first = '\n'
    · subst same
      rw [if_pos rfl, ih]
      rfl
    · rw [if_neg same, ih, startsFrom_append (Utf8.lineFeed_not_mem_encodeChar same),
        String.length_utf8EncodeChar]

/-- The location of an offset is the place behind the bytes in front of it. -/
theorem ofOffset_lineStarts {text : Text} {offset : Nat} (inside : offset ≤ text.byteLength) :
    ofOffset (lineStarts text) offset = behind ((Utf8.encode text).take offset) := by
  let front := (Utf8.encode text).take offset
  have size : front.length = offset := by
    rw [List.length_take, Utf8.length_encode]
    exact Nat.min_eq_left inside
  have passed : (lineStarts text).takeWhile (· ≤ offset) = startsFrom 0 0 front := by
    have cut := takeWhile_startsFrom (Nat.le_refl 0) front ((Utf8.encode text).drop offset)
    rw [List.take_append_drop, size, Nat.zero_add] at cut
    rw [lineStarts, lineStartsFrom_eq]
    exact cut
  have lastLine := getLastD_startsFrom 0 front
  have line : max (startsFrom 0 0 front).length 1 = 1 + front.count lineFeed := by
    rw [length_startsFrom]
    omega
  have column : offset - (startsFrom 0 0 front).getLastD 0 + 1 =
      1 + (front.reverse.takeWhile (· != lineFeed)).length := by omega
  simp only [ofOffset, passed, line, column]
  rfl

/-- The location of the offset of a front is the place behind its bytes. -/
theorem ofOffset_byteLength (front rest : Text) :
    ofOffset (lineStarts (front ++ rest)) front.byteLength = behind (Utf8.encode front) := by
  have inside : front.byteLength ≤ (front ++ rest).byteLength := by
    rw [Text.byteLength_append]
    exact Nat.le_add_right _ _
  rw [ofOffset_lineStarts inside, Utf8.encode_append, ← Utf8.length_encode, List.take_left]

/-- Behind more bytes is another place. -/
theorem behind_append_ne {more : List UInt8} (nonempty : more ≠ []) (front : List UInt8) :
    behind (front ++ more) ≠ behind front := by
  intro same
  have lines := congrArg Location.line same
  have columns := congrArg Location.column same
  simp only [behind, List.count_append] at lines columns
  have free : lineFeed ∉ more := by
    rw [← List.count_eq_zero]
    omega
  have whole : ∀ byte ∈ more.reverse, (byte != lineFeed) = true := by
    intro byte mem
    rw [List.mem_reverse] at mem
    exact bne_iff_ne.2 fun isFeed => free (isFeed ▸ mem)
  rw [List.reverse_append, List.takeWhile_append_of_pos whole, List.length_append,
    List.length_reverse] at columns
  have positive := List.length_pos_iff.2 nonempty
  omega

/-- Of two fronts of the same bytes the places behind are the same only if they are the same. -/
theorem behind_take_inj {bytes : List UInt8} {first second : Nat} (fits : first ≤ bytes.length)
    (fitsSecond : second ≤ bytes.length)
    (same : behind (bytes.take first) = behind (bytes.take second)) : first = second := by
  -- The longer of the two fronts is the shorter one with more bytes.
  have order {shorter longer : Nat} (less : shorter < longer) (inside : longer ≤ bytes.length) :
      behind (bytes.take longer) ≠ behind (bytes.take shorter) := by
    have divided : bytes.take longer = bytes.take shorter ++ (bytes.take longer).drop shorter := by
      have start : bytes.take shorter = (bytes.take longer).take shorter := by
        rw [List.take_take, Nat.min_eq_left (Nat.le_of_lt less)]
      rw [start, List.take_append_drop]
    rw [divided]
    apply behind_append_ne
    rw [← List.length_pos_iff, List.length_drop, List.length_take, Nat.min_eq_left inside]
    omega
  rcases Nat.lt_trichotomy first second with less | equal | more
  · exact absurd same.symm (order less fitsSecond)
  · exact equal
  · exact absurd same (order more fits)

end Location
end TexStatements
