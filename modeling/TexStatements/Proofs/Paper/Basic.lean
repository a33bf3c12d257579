import TexStatements.Extraction
import TexStatements.Proofs.Counter.History
import TexStatements.Proofs.Text.Search

/-!
# Papers

A paper declares kinds of statements and consists of headings and statements, possibly followed by
an appendix of further ones. It is rendered as a source text with one command or statement to a
line, and it has the records that a reader of the printed paper would write down: for each
statement its caption with the number that it is printed with, its text, and the label by which it
can be referred to.
-/
namespace TexStatements
namespace Paper

/-- How the statements of a kind are numbered. -/
inductive Numbering where
  /-- By a counter of their own. -/
  | plain
  /-- Not at all. -/
  | starred
  /-- By the counter of another kind. -/
  | shared (other : Text)
  /-- By a counter of their own that starts again with every heading of a level. -/
  | within (level : SectionLevel)
deriving DecidableEq

/-- A kind of statements, as a paper declares it. -/
structure Kind where
  /-- The name of its environment. -/
  name : Text
  /-- The caption that heads its statements. -/
  caption : Text
  /-- How its statements are numbered. -/
  numbering : Numbering
deriving DecidableEq

/-- The kind whose counter statements of a kind are numbered by, if it is another one. -/
def Kind.shared? (kind : Kind) : Option Text :=
  match kind.numbering with
  | .shared other => some other
  | _ => none

/-- The level that the counter of a kind starts again with. -/
def Kind.parent? (kind : Kind) : Option SectionLevel :=
  match kind.numbering with
  | .within level => some level
  | _ => none

/-- A part of a paper that takes one line of its source. -/
inductive Item where
  /-- A heading, possibly without a number. -/
  | heading (level : SectionLevel) (starred : Bool) (title : Text)
  /-- A statement of a kind, possibly with a label. -/
  | statement (kind : Text) (label? : Option Text) (body : Text)
deriving DecidableEq

end Paper

/-- A paper. -/
structure Paper where
  /-- The kinds of statements in the order of their declaration. -/
  kinds : List Paper.Kind
  /-- The items before the appendix. -/
  main : List Paper.Item
  /-- The items of the appendix, if there is one. -/
  appendix? : Option (List Paper.Item)
deriving DecidableEq

namespace Paper

section Source

/-- A text in braces. -/
def group (inner : Text) : Text := '{' :: (inner ++ ['}'])

/-- A text in brackets. -/
def bracket (inner : Text) : Text := '[' :: (inner ++ [']'])

/-- The command that declares a kind. -/
def Kind.line (kind : Kind) : Text :=
  match kind.numbering with
  | .plain => "\\newtheorem".toList ++ group kind.name ++ group kind.caption
  | .starred => "\\newtheorem*".toList ++ group kind.name ++ group kind.caption
  | .shared other => "\\newtheorem".toList ++ group kind.name ++ bracket other ++ group kind.caption
  | .within level =>
    "\\newtheorem".toList ++ group kind.name ++ group kind.caption ++ bracket level.counter

/-- The text between the tags of a statement. -/
def inside (label? : Option Text) (body : Text) : Text :=
  match label? with
  | some label => "\\label".toList ++ group label ++ body
  | none => body

/-- A statement without a label has its body between its tags. -/
@[simp] theorem inside_none (body : Text) : inside none body = body := rfl

/-- A command in front of the body gives the label. -/
@[simp] theorem inside_some (label body : Text) :
    inside (some label) body = '\\' :: ("label".toList ++ (group label ++ body)) := rfl

/-- The source of an item. -/
def Item.line : Item → Text
  | heading level starred title =>
    '\\' :: level.counter ++ (if starred then ['*'] else []) ++ group title
  | statement kind label? body =>
    Environment.beginTag kind ++ inside label? body ++ Environment.endTag kind

/-- The items of the appendix; none if there is no appendix. -/
def appendixItems (paper : Paper) : List Item := paper.appendix?.getD []

/-- The source of the appendix, which a command starts. -/
def appendixLines (paper : Paper) : List Text :=
  match paper.appendix? with
  | some items => "\\appendix".toList :: items.map Item.line
  | none => []

/-- The lines of the source. -/
def lines (paper : Paper) : List Text :=
  paper.kinds.map Kind.line ++ [Environment.beginTag "document".toList] ++
    paper.main.map Item.line ++ paper.appendixLines ++ [Environment.endTag "document".toList]

/-- The source of a paper: its lines, each with the line feed that ends it. -/
def render (paper : Paper) : Text := paper.lines.flatMap (· ++ ['\n'])

end Source

section WellFormed

/-- A nonempty text of letters. -/
def IsWord (text : Text) : Prop := text ≠ [] ∧ ∀ letter ∈ text, letter.isAlpha = true

instance (text : Text) : Decidable (IsWord text) :=
  inferInstanceAs (Decidable (text ≠ [] ∧ ∀ letter ∈ text, letter.isAlpha = true))

/-- Names that no kind may have. -/
def reservedNames : List Text :=
  ["document".toList, "appendix".toList, "comment".toList] ++
    SectionLevel.all.map SectionLevel.counter

/-- An item that the grammar of papers admits: a heading of letters, or a statement of a declared
kind whose label is made of letters and digits and whose text of letters, digits and spaces neither
is empty nor starts or ends with a space. -/
def Item.WellFormed (names : List Text) : Item → Prop
  | heading _ _ title => ∀ letter ∈ title, letter.isAlpha = true
  | statement kind label? body =>
    kind ∈ names ∧ (∀ label ∈ label?, ∀ character ∈ label, character.isAlphanum = true) ∧
      body ≠ [] ∧ (∀ character ∈ body, character.isAlphanum = true ∨ character = ' ') ∧
      body.head? ≠ some ' ' ∧ body.getLast? ≠ some ' '

instance (names : List Text) : DecidablePred (Item.WellFormed names)
  | .heading _ _ title => inferInstanceAs (Decidable (∀ letter ∈ title, letter.isAlpha = true))
  | .statement kind label? body => inferInstanceAs (Decidable (kind ∈ names ∧
      (∀ label ∈ label?, ∀ character ∈ label, character.isAlphanum = true) ∧
      body ≠ [] ∧ (∀ character ∈ body, character.isAlphanum = true ∨ character = ' ') ∧
      body.head? ≠ some ' ' ∧ body.getLast? ≠ some ' '))

/-- A paper that the grammar of papers admits. -/
structure WellFormed (paper : Paper) : Prop where
  /-- Some kind is declared. -/
  declares : paper.kinds ≠ []
  /-- No two kinds have one name. -/
  distinct : (paper.kinds.map Kind.name).Nodup
  /-- Names are words that are not reserved. -/
  names : ∀ kind ∈ paper.kinds, IsWord kind.name ∧ kind.name ∉ reservedNames
  /-- Captions are words. -/
  captions : ∀ kind ∈ paper.kinds, IsWord kind.caption
  /-- A counter is shared with a declared kind that shares none. -/
  shares : ∀ kind ∈ paper.kinds, ∀ other ∈ kind.shared?,
    ∃ owner ∈ paper.kinds, owner.name = other ∧ owner.shared? = none
  /-- Items are admitted one by one. -/
  items : ∀ item ∈ paper.main ++ paper.appendixItems, item.WellFormed (paper.kinds.map Kind.name)

instance (paper : Paper) : Decidable paper.WellFormed :=
  decidable_of_iff
    (paper.kinds ≠ [] ∧ (paper.kinds.map Kind.name).Nodup ∧
      (∀ kind ∈ paper.kinds, IsWord kind.name ∧ kind.name ∉ reservedNames) ∧
      (∀ kind ∈ paper.kinds, IsWord kind.caption) ∧
      (∀ kind ∈ paper.kinds, ∀ other ∈ kind.shared?,
        ∃ owner ∈ paper.kinds, owner.name = other ∧ owner.shared? = none) ∧
      ∀ item ∈ paper.main ++ paper.appendixItems, item.WellFormed (paper.kinds.map Kind.name))
    ⟨fun ⟨declares, distinct, names, captions, shares, items⟩ =>
      ⟨declares, distinct, names, captions, shares, items⟩,
    fun wellFormed => ⟨wellFormed.declares, wellFormed.distinct, wellFormed.names,
      wellFormed.captions, wellFormed.shares, wellFormed.items⟩⟩

end WellFormed

section Records

/-- The kind of a name. -/
def kind? (paper : Paper) (name : Text) : Option Kind :=
  paper.kinds.find? fun kind => kind.name == name

/-- The counter that statements of a kind step; none if they are not numbered. -/
def Kind.counter? (kind : Kind) : Option Text :=
  match kind.numbering with
  | .starred => none
  | .shared other => some other
  | _ => some kind.name

/-- The counter that an item steps, if it steps one. -/
def step? (paper : Paper) : Item → Option Text
  | .heading level starred _ => if starred then none else some level.counter
  | .statement kind _ _ => (paper.kind? kind).bind Kind.counter?

/-- Whether an item is a chapter, numbered or not. -/
def Item.isChapter : Item → Bool
  | heading level _ _ => level == .chapter
  | statement _ _ _ => false

/-- Whether an item is a statement. -/
def Item.isStatement : Item → Bool
  | heading _ _ _ => false
  | statement _ _ _ => true

/-- Whether a paper has chapters. -/
def hasChapters (paper : Paper) : Bool := (paper.main ++ paper.appendixItems).any Item.isChapter

/-- The levels from the highest one down to a given one. Sections are numbered within chapters
where there are any. -/
def levelsDownTo (paper : Paper) (level : SectionLevel) : List SectionLevel :=
  let sections := if paper.hasChapters then [.chapter, .section] else [.section]
  match level with
  | .chapter => [.chapter]
  | .section => sections
  | .subsection => sections ++ [.subsection]
  | .subsubsection => sections ++ [.subsection, .subsubsection]

/-- The counters whose values make up the number of a statement, from the highest one down to the
counter that the statement steps. -/
def lineage (paper : Paper) (counter : Text) : List Text :=
  match (paper.kind? counter).map Kind.numbering with
  | some (.within level) => (paper.levelsDownTo level).map SectionLevel.counter ++ [counter]
  | _ => [counter]

/-- The level whose counter is written in letters in the appendix: the highest one in use. -/
def topLevel (paper : Paper) : SectionLevel := if paper.hasChapters then .chapter else .section

/-- How a count is written; counts are 32-bit words. -/
def write (paper : Paper) (appendix : Bool) (counter : Text) (count : Nat) : Text :=
  if appendix ∧ counter = paper.topLevel.counter then letters (UInt32.ofNat count)
  else numeral (UInt32.ofNat count).toNat

/-- The title of a statement, given the items of its part up to it: the caption of its kind, and
behind it the number if its kind is numbered. -/
def title (paper : Paper) (appendix : Bool) (upTo : List Item) (name : Text) : Text :=
  match paper.kind? name with
  | none => []
  | some kind =>
    match kind.counter? with
    | none => kind.caption
    | some counter => kind.caption ++ ' ' ::
      numberAlong (paper.write appendix) (upTo.filterMap paper.step?) [] (paper.lineage counter)

/-- The labels of statements, in order. -/
def labels (items : List Item) : List Text :=
  items.filterMap fun
    | .statement _ label? _ => label?
    | .heading _ _ _ => none

/-- The label that a statement keeps: its own unless it is empty or a later statement has it too. -/
def keptLabel? (later : List Item) (label? : Option Text) : Option Text :=
  label?.filter fun label => !label.isEmpty && !(labels later).contains label

/-- The records of the items of a part that are left, given those before them and the items of the
next part. -/
def recordsFrom (paper : Paper) (appendix : Bool) (behind : List Item) (past : List Item) :
    List Item → List Record
  | [] => []
  | .heading level starred title :: more =>
    paper.recordsFrom appendix behind (past ++ [.heading level starred title]) more
  | .statement kind label? body :: more =>
    let upTo := past ++ [.statement kind label? body]
    ⟨paper.title appendix upTo kind, body, keptLabel? (more ++ behind) label?⟩ ::
      paper.recordsFrom appendix behind upTo more

/-- The records of a paper: one for each statement, those of the main part first. -/
def records (paper : Paper) : List Record :=
  paper.recordsFrom false paper.appendixItems [] paper.main ++
    paper.recordsFrom true [] [] paper.appendixItems

end Records

end Paper
end TexStatements
