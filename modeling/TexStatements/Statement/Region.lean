import TexStatements.Environment.Delimiter
import TexStatements.Declaration.Basic

/-!
# Statement regions

For the extraction of bodies the tags of every theorem-like environment give way to one canonical
pair, so that a single scan finds all statements in document order, also those inside others. The
regions are those of matched tags: each closing tag closes the innermost opening tag that is still
open, and tags without a partner give no region.
-/
namespace TexStatements

/-- Put canonical tags in place of those of the listed environments, one environment after the
other. -/
def canonicalize (text : Text) (environments : List Text) : Text :=
  environments.foldl (fun text name =>
    let opened := text.replaceAll (Environment.beginTag name)
      (Environment.beginTag canonicalEnvironment) (Environment.End.tag_ne_nil .opening name)
    opened.replaceAll (Environment.endTag name) (Environment.endTag canonicalEnvironment)
      (Environment.End.tag_ne_nil .closing name)) text

/-- The region of one statement in a text with canonical tags. -/
structure StatementRegion where
  /-- Byte offset of the opening tag. -/
  start : Nat
  /-- Byte offset just behind the opening tag. -/
  bodyStart : Nat
  /-- Byte offset of the closing tag. -/
  bodyStop : Nat
  /-- The text between the tags. -/
  body : Text
deriving DecidableEq

namespace StatementRegion

/-- Read a canonical tag: which end it is, and the text behind it. -/
def readTag (text : Text) : Option (Environment.End × Text) :=
  match Text.dropLiteral? (Environment.beginTag canonicalEnvironment) text with
  | some rest => some (.opening, rest)
  | none =>
    (Text.dropLiteral? (Environment.endTag canonicalEnvironment) text).map fun rest =>
      (.closing, rest)

/-- Reading a canonical tag consumes just that tag. -/
theorem readTag_eq_append {text rest : Text} {part : Environment.End}
    (read : readTag text = some (part, rest)) : text = part.tag canonicalEnvironment ++ rest := by
  unfold readTag at read
  split at read
  · rename_i dropped
    cases read
    exact Text.dropLiteral?_eq_some_iff.1 dropped
  · simp only [Option.map_eq_some_iff, Prod.mk.injEq] at read
    obtain ⟨tail, dropped, rfl, rfl⟩ := read
    exact Text.dropLiteral?_eq_some_iff.1 dropped

/-- The reader of canonical tags. -/
def tag : Reader Environment.End where
  read := readTag
  advances := by
    intro text part rest read
    have whole := readTag_eq_append read
    cases spelled : part.tag canonicalEnvironment with
    | nil => exact absurd spelled (part.tag_ne_nil canonicalEnvironment)
    | cons first more =>
      rw [spelled] at whole
      exact ⟨first, more ++ rest, whole, List.suffix_append more rest⟩

/-- Number of bytes of the canonical opening tag. -/
def openingBytes : Nat := (Environment.beginTag canonicalEnvironment).byteLength

/-- The regions of tags in order in a text of a number of bytes, given the opening tags that are
still open, innermost first. -/
def ofTags (bytes : Nat) : List (Found Environment.End) → List (Found Environment.End) →
    List StatementRegion
  | _, [] => []
  | opened, found :: more =>
    match found.value with
    | .opening => ofTags bytes (found :: opened) more
    | .closing =>
      match opened with
      | [] => ofTags bytes [] more
      | opening :: outer =>
        let start := Text.offsetIn bytes opening.place
        let bodyStart := start + openingBytes
        let bodyStop := Text.offsetIn bytes found.place
        ⟨start, bodyStart, bodyStop, opening.rest.frontBytes (bodyStop - bodyStart)⟩ ::
          ofTags bytes outer more

/-- The regions of a text with canonical tags, in the order of their opening tags. -/
def ofText (text : Text) : List StatementRegion :=
  (ofTags text.byteLength [] (tag.occurrences text)).mergeSort
    fun left right => left.start ≤ right.start

end StatementRegion
end TexStatements
