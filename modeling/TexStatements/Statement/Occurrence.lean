import TexStatements.Declaration.Basic
import TexStatements.Options

/-!
# Occurrences

An occurrence is a region between the tags of one theorem-like environment. Each environment is
searched for on its own: an opening tag is closed by the next closing tag of the same name, and the
search goes on behind it. The occurrences of all environments are then ordered by their offsets and
divided where the appendix starts.
-/
namespace TexStatements

/-- A region between the tags of a theorem-like environment. -/
structure Occurrence where
  /-- The name of the environment. -/
  environment : Text
  /-- Byte offset of the opening tag. -/
  offset : Nat
  /-- Byte offset just behind the closing tag. -/
  stop : Nat
  /-- The text between the tags. -/
  body : Text
  /-- The part of the document that the occurrence belongs to. -/
  region : Region
  /-- Its position in that part. -/
  index : Nat
deriving DecidableEq

/-- Which environments count as theorem-like in one document. -/
inductive EnvironmentChoice where
  /-- Those that the document declares. -/
  | declared (names : List Text)
  /-- Those of the options, because the document declares none. -/
  | fallback (names : List Text)
deriving DecidableEq

namespace EnvironmentChoice

/-- The choice for a document with these declarations. -/
def ofDeclarations (declarations : DeclarationTable) (options : Options) : EnvironmentChoice :=
  if declarations.entries.isEmpty then .fallback options.defaultEnvironments
  else .declared (NameMap.keys declarations)

/-- The environments of a choice. -/
def names : EnvironmentChoice → List Text
  | declared names => names
  | fallback names => names

/-- Whether the document declares nothing. -/
def isFallback : EnvironmentChoice → Bool
  | declared _ => false
  | fallback _ => true

end EnvironmentChoice

/-- A region between the tags of one environment. -/
structure EnvironmentRegion where
  /-- Byte offset of the opening tag. -/
  offset : Nat
  /-- Byte offset just behind the closing tag. -/
  stop : Nat
  /-- The text between the tags. -/
  body : Text
deriving DecidableEq

/-- The regions of one environment and whether an opening tag was left without a closing one. -/
structure EnvironmentScan where
  /-- The regions in order. -/
  regions : List EnvironmentRegion
  /-- Whether the scan ended at an opening tag that is never closed. -/
  unclosed : Bool

namespace EnvironmentScan

/-- Scan a text that starts at a byte offset for the regions between two tags. -/
def ofTags (opening closing : Text) (nonempty : opening ≠ []) (start : Nat) (text : Text) :
    EnvironmentScan :=
  match _ : Text.cut? opening text with
  | none => ⟨[], false⟩
  | some (front, inside) =>
    match _ : Text.cut? closing inside with
    | none => ⟨[], true⟩
    | some (body, rest) =>
      let offset := start + front.byteLength
      let stop := offset + (opening ++ body ++ closing).byteLength
      let further := ofTags opening closing nonempty stop rest
      { further with regions := ⟨offset, stop, body⟩ :: further.regions }
termination_by text.length
decreasing_by
  rename_i located closed
  have whole := Text.cut?_eq_append located
  have behind := (Text.cut?_suffix closed).length_le
  have positive := List.length_pos_iff.2 nonempty
  rw [whole]
  simp only [List.length_append]
  omega

/-- Scan for the regions of an environment. -/
def ofName (name text : Text) : EnvironmentScan :=
  ofTags (Environment.beginTag name) (Environment.endTag name)
    (Environment.End.tag_ne_nil .opening name) 0 text

/-- The regions as occurrences, not yet placed in a part of the document. -/
def occurrences (scan : EnvironmentScan) (name : Text) : List Occurrence :=
  scan.regions.map fun found =>
    { environment := name
      offset := found.offset
      stop := found.stop
      body := found.body
      region := .main
      index := 0 }

/-- The warning of a scan, if it ended at an unclosed tag. -/
def warnings (scan : EnvironmentScan) (name : Text) : List Warning :=
  if scan.unclosed then [.unclosedEnvironment name] else []

end EnvironmentScan

/-- The tag of the appendix environment. -/
def appendixTag : Text := Environment.beginTag "appendix".toList

/-- The reader of the command that starts the appendix. -/
def appendixCommand : Reader Text := controlWord (· == "appendix".toList)

/-- Byte offset at which the appendix starts: its environment, or else its command. -/
def appendixCut? (text : Text) : Option Nat :=
  match Text.cut? appendixTag text with
  | some (front, _) => some front.byteLength
  | none => (appendixCommand.find? text).map fun (front, _) => front.byteLength

/-- Occurrences divided at the appendix. -/
structure Located where
  /-- Those of the main part, in order. -/
  main : List Occurrence
  /-- Those of the appendix, in order. -/
  appendix : List Occurrence
  /-- Byte offset at which the appendix starts. -/
  cut? : Option Nat
  /-- One warning for every environment that is left open. -/
  warnings : List Warning

namespace Located

/-- All occurrences in order. -/
def all (located : Located) : List Occurrence := located.main ++ located.appendix

/-- Whether nothing was found. -/
def isEmpty (located : Located) : Bool := located.all.isEmpty

end Located

/-- Whether an offset lies before the appendix. -/
def isBeforeCut (cut? : Option Nat) (offset : Nat) : Bool :=
  match cut? with
  | some cut => offset < cut
  | none => true

/-- Place occurrences in a part of the document, numbered from zero. -/
def Occurrence.place (region : Region) (occurrences : List Occurrence) : List Occurrence :=
  occurrences.mapIdx fun index occurrence => { occurrence with region, index }

/-- Find all occurrences of the given environments. -/
def locate (text : Text) (environments : List Text) : Located :=
  let scans := environments.map fun name => (name, EnvironmentScan.ofName name text)
  let found := (scans.flatMap fun (name, scan) => scan.occurrences name).mergeSort
    fun left right => left.offset ≤ right.offset
  let cut? := appendixCut? text
  { main := Occurrence.place .main
      (found.takeWhile fun occurrence => isBeforeCut cut? occurrence.offset)
    appendix := Occurrence.place .appendix
      (found.dropWhile fun occurrence => isBeforeCut cut? occurrence.offset)
    cut?
    warnings := scans.flatMap fun (name, scan) => scan.warnings name }

end TexStatements
