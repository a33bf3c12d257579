import TexStatements.Source.Inline
import TexStatements.Text.Case

/-!
# The main file

The main file of a source tree is one with a document class that no other file includes. If there
are several, each is scored by how much it looks like a finished paper, and the first with the
highest score is taken. If every file with a document class is included by another one, all of them
compete.
-/
namespace TexStatements

/-- The reader of document classes: the whole command as it stands in the text. -/
def documentClass : Reader Unit :=
  (optionedWord ["documentclass".toList]).thenFlatGroup fun _ _ => some ()

/-- The environments that speak for a paper. -/
def scoredEnvironments : List Text :=
  ["theorem", "lemma", "proposition", "corollary", "remark"].map String.toList

/-- The reader of citations: a citing word directly before its argument. -/
def citation : Reader Unit :=
  (controlWord ["cite".toList, "citet".toList, "citep".toList].contains).andThen
    (fun _ text =>
      match text with
      | '{' :: rest => some ((), rest)
      | _ => none)
    (by
      intro value text result rest success
      split at success
      · cases success
        exact List.suffix_cons _ _
      · simp at success)

/-- The control words of sections that speak for a paper. -/
def scoredSections : List Text :=
  ["section", "subsection", "subsubsection"].map String.toList

/-- Macros that mark a draft. -/
def draftMacros : List Text :=
  ["\\fixme", "\\FIXME", "\\todo", "\\TODO", "\\todoin", "\\missingfigure", "\\XXX",
    "\\xxx"].map String.toList

/-- Words that mark a draft, in any case. -/
def draftWords : List Text :=
  ["todo", "tbd", "fixme", "xxx", "fill in", "to be completed", "to be filled"].map String.toList

/-- Words that mark a letter to a referee, in any case. -/
def refereeWords : List Text :=
  ["response to referee", "reply to referee"].map String.toList

/-- Parts of a file name that mark a companion of a paper, in any case. -/
def companionNames : List Text :=
  ["draft", "notes", "slides", "talk", "reply", "response"].map String.toList

/-- Number of places where an environment that speaks for a paper is opened. -/
def countScoredTags (content : Text) : Nat :=
  scoredEnvironments.foldr (fun name count =>
    ((Reader.literal (Environment.beginTag name)
      (Environment.End.tag_ne_nil .opening name)).occurrences content).length + count) 0

/-- A text in lower case, as far as a search for ASCII text can tell. -/
def Text.searchable (text : Text) : Text := text.map searchLower

/-- A fixed number of points for every text of a list that occurs. -/
def pointsFor (content : Text) (points : Float) (start : Float) (markers : List Text) : Float :=
  markers.foldl (fun score marker => if content.contains marker then score + points else score)
    start

/-- The command of the first document class of a text, as it stands there. -/
def classText? (content : Text) : Option Text :=
  (documentClass.find? content).map fun (_, found) => found.place.before found.rest

/-- How much a file looks like the main file of a finished paper, in points. Points are added in a
fixed order, because the sum is rounded at every step. -/
def scoreMainFile (path content : Text) : Float :=
  let score := pointsFor content 3.0 0.0
    [Environment.beginTag "document".toList, Environment.endTag "document".toList]
  let score := pointsFor content 2.0 score
    ["\\title".toList, "\\author".toList, "\\maketitle".toList,
      Environment.beginTag "abstract".toList]
  let sections := ((keyword scoredSections.contains).occurrences content).length
  let score := score + 0.5 * Float.ofNat sections
  let score := score + 0.5 * Float.ofNat (countScoredTags content)
  let score := score + 0.2 * Float.ofNat (citation.occurrences content).length
  let lines := Float.ofNat (content.count '\n') / 200.0
  let score := score + (if lines < 5.0 then lines else 5.0)
  let class? := classText? content
  let deduct (score points : Float) (applies : Bool) := if applies then score - points else score
  let score := deduct score 5.0 (class?.any fun text => text.contains "beamer".toList)
  let name := ((path.fields Path.isSeparator).getLastD []).searchable
  let score := deduct score 3.0 (companionNames.any name.contains)
  let lower := content.searchable
  let score := deduct score 5.0 (refereeWords.any lower.contains)
  let score := deduct score 8.0 (draftMacros.any content.contains)
  let score := deduct score 4.0 (draftWords.any lower.contains)
  deduct score 4.0 (class?.any fun text => text.searchable.contains "draft".toList)

/-- A document file with its text, comments removed. -/
structure Candidate where
  /-- The path. -/
  path : Text
  /-- The text without comments. -/
  content : Text

namespace Candidate

/-- Whether a file has a document class. -/
def hasClass (candidate : Candidate) : Bool := documentClass.occursIn candidate.content

/-- The score of a file. -/
def score (candidate : Candidate) : Float := scoreMainFile candidate.path candidate.content

/-- A target with the extension of document files. -/
def withExtension (target : Text) : Text :=
  if target.endsWith sourceExtension then target else target ++ sourceExtension

/-- The paths that the inclusions of a file may stand for: relative to it and to the root. -/
def targets (resolve : Text → Text → Text) (candidate : Candidate) : List Text :=
  (inclusion.occurrences candidate.content).flatMap fun found =>
    let target := withExtension found.value.trim
    [resolve candidate.path target, Path.normalize target]

/-- Whether a file includes another one. -/
def includes (resolve : Text → Text → Text) (includer included : Candidate) : Bool :=
  includer.path != included.path && (includer.targets resolve).contains included.path

/-- The first of the candidates with the highest score. -/
def best? : List Candidate → Option Candidate
  | [] => none
  | first :: more =>
    some (more.foldl (fun (best, top) candidate =>
      if top < candidate.score then (candidate, candidate.score) else (best, top))
      (first, first.score)).1

/-- The main file among document files in order. -/
def main? (resolve : Text → Text → Text) (candidates : List Candidate) : Option Candidate :=
  let withClass := candidates.filter hasClass
  let roots := withClass.filter fun candidate =>
    !candidates.any fun other => includes resolve other candidate
  best? (if roots.isEmpty then withClass else roots)

end Candidate

namespace SourceTree

variable {m : Type → Type} [Monad m]

/-- Read the document files at some paths, leaving out those that cannot be read. -/
def candidates (tree : SourceTree m) : List Text → m (List Candidate)
  | [] => pure []
  | path :: more => do
    let content ← (tree.read path).run
    let rest ← tree.candidates more
    match content with
    | .ok content => pure (⟨path, Comment.strip content⟩ :: rest)
    | .error _ => pure rest

/-- The path of the main file. -/
def mainFile? (tree : SourceTree m) : m (Option Text) := do
  let candidates ← tree.candidates (← tree.documentFiles)
  pure ((Candidate.main? tree.resolve candidates).map (·.path))

end SourceTree
end TexStatements
