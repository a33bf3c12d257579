import TexStatements.Counter.Forest
import TexStatements.Document
import TexStatements.Section
import TexStatements.Statement.Occurrence

/-!
# Numbering plans

A plan holds what is needed to number the parts of a document. Each part is numbered by a fresh
counter forest: sectioning commands and statements are gone through in the order of their offsets,
the commands step the counters of their levels, and each statement takes the heading that its
environment then has.
-/
namespace TexStatements

/-- What is needed to number the parts of a document. -/
structure NumberingPlan where
  /-- The declared environments. -/
  declarations : DeclarationTable
  /-- Counter edges from outside the declarations: child and parent. -/
  counterEdges : List (Text × Text)
  /-- Whether numbers come before captions. -/
  swapsNumbers : Bool
  /-- Whether sections are numbered within chapters. -/
  hasChapters : Bool
  /-- Counters written as letters in the appendix. -/
  alphaRoots : List Text

namespace NumberingPlan

/-- The plan of a document with these sectioning commands. -/
def new (document : Document) (markers : List SectionMarker) (options : Options) :
    NumberingPlan :=
  let hasChapters := markers.any fun marker => marker.level == .chapter
  { declarations := document.declarations
    counterEdges := document.counterEdges
    swapsNumbers := document.swapsNumbers
    hasChapters
    alphaRoots := options.alphaRoots?.getD
      [(if hasChapters then SectionLevel.chapter else SectionLevel.section).counter] }

/-- Add an edge between sectioning levels. -/
def nest (forest : CounterForest) (child parent : SectionLevel) : CounterForest :=
  (forest.numberWithin child.counter parent.counter).1

/-- The forest that a part of the document starts with: the sectioning levels, the declarations
and the other edges, in this order. -/
def forest (plan : NumberingPlan) (appendix : Bool) : CounterForest :=
  let start := { CounterForest.new with
    swapped := plan.swapsNumbers
    inAppendix := appendix
    alphaRoots := plan.alphaRoots }
  let start := if plan.hasChapters then nest start .section .chapter else start
  let leveled := nest (nest start .subsection .section) .subsubsection .subsection
  let declared := plan.declarations.values.foldl CounterForest.define leveled
  plan.counterEdges.foldl (fun forest (child, parent) => (forest.numberWithin child parent).1)
    declared

/-- Step the counters of the commands before an offset: the forest and the commands that are
left. -/
def advance (offset : Nat) : CounterForest → List SectionMarker →
    CounterForest × List SectionMarker
  | forest, [] => (forest, [])
  | forest, marker :: markers =>
    if marker.offset < offset then
      advance offset (forest.increment marker.level.counter) markers
    else (forest, marker :: markers)

/-- The headings of occurrences in order, given the numbered commands that are left. -/
def headings : CounterForest → List SectionMarker → List Occurrence → List Text
  | _, _, [] => []
  | forest, markers, occurrence :: occurrences =>
    let (forest, markers) := advance occurrence.offset forest markers
    let (forest, heading) := forest.begin occurrence.environment
    heading :: headings forest markers occurrences

/-- Number the occurrences of one part: their headings, and the edges refused on the way. -/
def number (plan : NumberingPlan) (occurrences : List Occurrence) (markers : List SectionMarker)
    (appendix : Bool) : List Text × List Warning :=
  let (forest, warnings) := (plan.forest appendix).takeWarnings
  (headings forest (markers.filter fun marker => !marker.starred) occurrences, warnings)

end NumberingPlan
end TexStatements
