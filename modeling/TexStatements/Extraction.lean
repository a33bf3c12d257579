import TexStatements.Counter.Plan
import TexStatements.Statement.Body
import TexStatements.Statement.Region

/-!
# Extraction

The statements of a document are found twice: as occurrences, which are numbered, and as regions of
canonical tags, which give the bodies. Headings and bodies are paired by position in the main part
and in the appendix; where the bodies do not suffice, the text of the occurrence stands in.
-/
namespace TexStatements

/-- One extracted statement. -/
structure Record where
  /-- The heading: caption and number. -/
  title : Text
  /-- The text on one line, without labels. -/
  body : Text
  /-- The label for references to the statement. -/
  label? : Option Text
deriving DecidableEq

/-- What an extraction yields. -/
structure Extraction where
  /-- The statements, those of the main part first. -/
  records : List Record
  /-- Problems met on the way. -/
  warnings : List Warning

/-- Pair the headings of a part of the document with its bodies. -/
def pairBodies (headings : List Text) (bodies : List StatementBody)
    (occurrences : List Occurrence) : List Record :=
  headings.mapIdx fun index title =>
    match bodies[index]? with
    | some body => ⟨title, body.text, body.label?⟩
    | none =>
      let raw := match occurrences[index]? with
        | some occurrence => occurrence.body
        | none => []
      ⟨title, (StatementBody.ofRaw raw).text, none⟩

/-- The warning of a part of the document whose bodies and headings differ in number. -/
def countWarnings (region : Region) (bodies headings : Nat) : List Warning :=
  if bodies = headings then [] else [.bodyCount region bodies headings]

namespace Options

/-- Records with the last one of each title, in the place of the first. -/
def dedupe (records : List Record) : List Record :=
  (NameMap.ofList (records.map fun record => (record.title, record))).values

/-- Keep the records of the wanted kinds and collapse titles if asked to. -/
def select (options : Options) (records : List Record) : List Record :=
  let kept := records.filter fun record => options.keeps record.title
  if options.dedupeTitles then dedupe kept else kept

end Options

namespace Extraction

/-- Extract the statements of a normalized document, before records are selected. -/
def ofDocument (document : Document) (options : Options) : Extraction :=
  let environments := (EnvironmentChoice.ofDeclarations document.declarations options).names
  let located := locate document.text environments
  let markers := SectionMarker.ofText document.text
  let isMain (marker : SectionMarker) := isBeforeCut located.cut? marker.offset
  let plan := NumberingPlan.new document markers options
  let (mainHeadings, refused) := plan.number located.main (markers.filter isMain) false
  let (appendixHeadings, _) :=
    plan.number located.appendix (markers.filter fun marker => !isMain marker) true
  let canonical := canonicalize document.text environments
  let regions := StatementRegion.ofText canonical
  let bodies := StatementBody.keepLastLabels
    (regions.map fun region => StatementBody.ofRaw region.body)
  let cut? := appendixCut? canonical
  let mainCount := (regions.takeWhile fun region => isBeforeCut cut? region.start).length
  let mainBodies := bodies.take mainCount
  let appendixBodies := bodies.drop mainCount
  { records := pairBodies mainHeadings mainBodies located.main ++
      pairBodies appendixHeadings appendixBodies located.appendix
    warnings := document.warnings ++ located.warnings ++ refused ++
      countWarnings .main mainBodies.length mainHeadings.length ++
      countWarnings .appendix appendixBodies.length appendixHeadings.length }

end Extraction

/-- The theorem-like statements of a raw text whose normalization ends. -/
def extract (raw : Text) (options : Options) : Extraction :=
  let extraction := Extraction.ofDocument (Document.ofText raw) options
  { extraction with records := options.select extraction.records }

/-- Extract the theorem-like statements of a raw text. There is no result where expanding the macros
of the text does not end. -/
def extract? (raw : Text) (options : Options) : Option Extraction :=
  if Document.ends raw then some (extract raw options) else none

end TexStatements
