import TexStatements.Text.Case
import TexStatements.Text.Numeral

/-!
# Extraction options

Options say which environments count when a document declares none, which counters are written as
letters in the appendix, which kinds of statements are kept, and whether a later record replaces an
earlier one with the same title. The kind of a statement is the first word of its title that is not
a number, so it does not matter on which side of the caption the number stands.
-/
namespace TexStatements

/-- Options of an extraction. -/
structure Options where
  /-- Environments that are looked for when the document declares none. -/
  defaultEnvironments : List Text
  /-- Counters written as letters in the appendix; none stands for the highest level in use. -/
  alphaRoots? : Option (List Text) := none
  /-- Kinds of statements to keep; none stands for all. -/
  kinds? : Option (List Text) := none
  /-- Whether records with one title are collapsed into the last of them. -/
  dedupeTitles : Bool := false
deriving DecidableEq

namespace Options

/-- The environments that are looked for when nothing else is said. -/
def usualEnvironments : List Text :=
  ["theorem", "lemma", "proposition", "corollary", "claim", "definition", "remark",
    "example"].map String.toList

/-- The kinds of statements proper. -/
def statementKinds : List Text :=
  ["theorem", "lemma", "proposition", "corollary"].map String.toList

/-- Keep every statement. -/
def default : Options := { defaultEnvironments := usualEnvironments }

/-- Keep statements proper, one record to a title. -/
def statements : Options := { default with kinds? := some statementKinds, dedupeTitles := true }

/-- Options that keep the given kinds only. -/
def withKinds (options : Options) (kinds : List Text) : Options :=
  { options with kinds? := some kinds }

/-- Options that write the given counters as letters in the appendix. -/
def withAlphaRoots (options : Options) (roots : List Text) : Options :=
  { options with alphaRoots? := some roots }

/-- Whether a character may stand in a formatted number. -/
def isNumberCharacter (c : Char) : Bool := isDigit c || ('A' ≤ c && c ≤ 'Z') || c == '.'

/-- Whether a word looks like a formatted number: digits, capitals and points with a point last. -/
def isNumber (word : Text) : Bool := word.getLast? == some '.' && word.all isNumberCharacter

/-- The first word of a title that is not a number; empty when there is none. -/
def kindOf (title : Text) : Text :=
  (title.words.find? fun word => !isNumber word).getD []

/-- Whether a statement with this title is kept. -/
def keeps (options : Options) (title : Text) : Bool :=
  match options.kinds? with
  | none => true
  | some kinds => kinds.any fun kind => kind.equalIgnoringCase (kindOf title)

end Options
end TexStatements
