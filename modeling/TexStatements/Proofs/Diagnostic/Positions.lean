import TexStatements.Proofs.Comment.Mask
import TexStatements.Proofs.Diagnostic.Braces
import TexStatements.Proofs.Diagnostic.Environments
import TexStatements.Proofs.Diagnostic.Location

/-!
# Positions of diagnostics

Braces and environments are checked in the text with masked comments. Masking moves no byte, and
what it leaves is no part of a comment, so a diagnostic on the masked text points to the brace or
tag of the input that it complains of.
-/
namespace TexStatements

open Environment

/-- A location is that of a word in a text: the word stands there at a byte offset, outside of the
comments, and the location is the place behind the bytes in front of it. -/
def Location.PointsTo (location : Location) (input word : Text) (offset : Nat) : Prop :=
  ∃ front rest, input = front ++ (word ++ rest) ∧ front.byteLength = offset ∧
    ¬ Comment.Covers input offset ∧ location = behind (Utf8.encode front)

/-- A brace that is complained of is a closing one that closes no group, at its place. -/
theorem location_of_mem_checkBraces {starts : List Nat} {text : Text} {diagnostic : Diagnostic}
    {location : Location} (mem : diagnostic ∈ checkBraces starts text)
    (located : location ∈ diagnostic.location?) :
    ∃ front rest, text = front ++ '}' :: rest ∧ front.byteLength ∈ text.unmatchedClosings ∧
      location = Location.ofOffset starts front.byteLength := by
  rw [checkBraces_eq_unopened, List.mem_append] at mem
  rcases mem with isClosing | isUnclosed
  · obtain ⟨closing, unopened, rfl⟩ := List.mem_map.1 isClosing
    cases located
    obtain ⟨brace, isBrace, rfl⟩ :=
      List.mem_map.1 ((Brace.unopened_sublist _).subset unopened)
    rw [List.mem_filter] at isBrace
    obtain ⟨before, after, row⟩ := List.append_of_mem isBrace.1
    obtain ⟨front, rest, whole, place, -⟩ := Text.exists_of_bracesFrom row
    have closes : brace.character = '}' := by simpa [Brace.character] using isBrace.2
    rw [Nat.zero_add] at place
    rw [closes] at whole
    rw [← Text.unmatchedClosings_eq, place] at unopened
    exact ⟨front, rest, whole, unopened, by rw [place]⟩
  · -- What is said of open braces has no location.
    unfold unclosedDiagnostics at isUnclosed
    split at isUnclosed
    · cases isUnclosed
    · cases List.mem_singleton.1 isUnclosed
      cases located

/-- A tag that is complained of is a closing one that does not close the innermost environment, at
its place. -/
theorem location_of_mem_checkEnvironments {starts : List Nat} {text : Text}
    {diagnostic : Diagnostic} {location : Location}
    (mem : diagnostic ∈ checkEnvironments starts text) (located : location ∈ diagnostic.location?) :
    ∃ found, Misplaced text found ∧
      location = Location.ofOffset starts (text.offsetOf found.place) := by
  rcases mem_environmentDiagnostics_iff.1 mem with
    ⟨before, found, after, split, said⟩ | ⟨entry, -, rfl⟩
  · obtain ⟨closes, different, place⟩ := OpenEnvironment.of_mem_complaint said
    rw [OpenEnvironment.map_name_foldl] at different
    refine ⟨found, ⟨closes, before, after, split, different⟩, ?_⟩
    rw [place] at located
    exact (Option.mem_some.1 located).symm
  · cases located

/-- A misplaced delimiter starts with the word that closes an environment. -/
theorem Environment.Misplaced.place_eq {text : Text} {found : Found Delimiter}
    (misplaced : Misplaced text found) :
    ∃ front rest, text = front ++ ('\\' :: End.closing.word ++ rest) ∧
      text.offsetOf found.place = front.byteLength := by
  obtain ⟨closes, before, after, split, -⟩ := misplaced
  have isFound : found ∈ delimiter.occurrences text := by
    rw [split]
    exact List.mem_append_right _ List.mem_cons_self
  obtain ⟨⟨front, rfl⟩, read⟩ := (delimiter.occurrences_ordered text).1 found isFound
  obtain ⟨blanks, inner, -, -, -, spelled⟩ := delimiter_read_eq_some_iff.1 read
  rw [closes] at spelled
  refine ⟨front, _, congrArg (front ++ ·) spelled, Text.offsetOf_append _ _⟩

/-- A word that the masked input has somewhere is in the input at the same place. -/
theorem pointsTo_of_mask_eq {input front rest word : Text} {first : Char}
    (divided : Comment.mask input = front ++ (first :: word ++ rest)) (sharp : ' ' ∉ first :: word)
    (noSpace : (String.utf8EncodeChar first)[0]? ≠ some Utf8.space) :
    (Location.ofOffset (lineStarts input) front.byteLength).PointsTo input (first :: word)
      front.byteLength := by
  obtain ⟨before, tail, whole, size⟩ := (Comment.blanked_mask input).exists_front divided sharp
  refine ⟨before, tail, whole, size, Comment.not_covers_of_mask_eq divided noSpace, ?_⟩
  rw [← size, whole]
  exact Location.ofOffset_byteLength before _

/-- Diagnostics of an input point to positions of the input. -/
structure PointsToSource (input : Text) : Prop where
  /-- Masking puts spaces for the bytes of comments, and changes nothing else. -/
  masks : Comment.Masks input (Comment.mask input)
  /-- The location of an offset counts the line feeds in front of it, and the bytes behind the last
  of them. -/
  location : ∀ offset ≤ input.byteLength, Location.ofOffset (lineStarts input) offset =
    .behind ((Utf8.encode input).take offset)
  /-- Different offsets have different locations. -/
  distinct : ∀ offset ≤ input.byteLength, ∀ other ≤ input.byteLength,
    Location.ofOffset (lineStarts input) offset = Location.ofOffset (lineStarts input) other →
      offset = other
  /-- A diagnostic on braces points to a closing brace of the input that closes no group. -/
  braces : ∀ diagnostic ∈ checkBraces (lineStarts input) (Comment.mask input),
    ∀ location ∈ diagnostic.location?, ∃ offset ∈ (Comment.mask input).unmatchedClosings,
      location.PointsTo input ['}'] offset
  /-- A diagnostic on environments points to a closing tag of the input that does not close the
  innermost environment. -/
  environments : ∀ diagnostic ∈ checkEnvironments (lineStarts input) (Comment.mask input),
    ∀ location ∈ diagnostic.location?, ∃ found, Misplaced (Comment.mask input) found ∧
      location.PointsTo input ('\\' :: End.closing.word)
        ((Comment.mask input).offsetOf found.place)

/-- All diagnostics on braces and environments point to their positions in the input. -/
theorem diagnostics_point_to_source (input : Text) : PointsToSource input where
  masks := Comment.masks_mask input
  location _ inside := Location.ofOffset_lineStarts inside
  distinct offset inside other otherInside same := by
    rw [Location.ofOffset_lineStarts inside, Location.ofOffset_lineStarts otherInside] at same
    refine Location.behind_take_inj ?_ ?_ same
    · rwa [Utf8.length_encode]
    · rwa [Utf8.length_encode]
  braces diagnostic mem location located := by
    obtain ⟨front, rest, divided, unmatched, rfl⟩ := location_of_mem_checkBraces mem located
    exact ⟨_, unmatched, pointsTo_of_mask_eq divided (by decide) (by decide)⟩
  environments diagnostic mem location located := by
    obtain ⟨found, misplaced, rfl⟩ := location_of_mem_checkEnvironments mem located
    obtain ⟨front, rest, divided, offset⟩ := misplaced.place_eq
    rw [offset]
    refine ⟨found, misplaced, ?_⟩
    rw [offset]
    exact pointsTo_of_mask_eq divided (by decide) (by decide)

end TexStatements
