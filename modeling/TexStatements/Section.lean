import TexStatements.Environment.Delimiter

/-!
# Sectioning

Sectioning commands step counters and thereby reset those of the statements. They count from the
start of the document environment on, or from the start of the text when there is none.
-/
namespace TexStatements

/-- Level of a sectioning command, from the highest to the lowest. -/
inductive SectionLevel where
  /-- A chapter. -/
  | chapter
  /-- A section. -/
  | section
  /-- A subsection. -/
  | subsection
  /-- A subsubsection. -/
  | subsubsection
deriving DecidableEq, Repr

namespace SectionLevel

/-- The counter that a level steps, which is also its command. -/
def counter : SectionLevel → Text
  | .chapter => "chapter".toList
  | .section => "section".toList
  | .subsection => "subsection".toList
  | .subsubsection => "subsubsection".toList

/-- All levels. -/
def all : List SectionLevel := [.chapter, .section, .subsection, .subsubsection]

/-- The level of a command. -/
def ofCommand? (name : Text) : Option SectionLevel := all.find? fun level => level.counter == name

end SectionLevel

/-- A sectioning command in a text. -/
structure SectionMarker where
  /-- The level. -/
  level : SectionLevel
  /-- Byte offset of the command. -/
  offset : Nat
  /-- Whether a star keeps the command from stepping its counter. -/
  starred : Bool
deriving DecidableEq

namespace SectionMarker

/-- The star that may follow a sectioning word, and the text behind it. -/
def star (text : Text) : Bool × Text :=
  match text with
  | '*' :: rest => (true, rest)
  | _ => (false, text)

/-- The text behind a star is a suffix. -/
theorem star_suffix (text : Text) : (star text).2 <:+ text := by
  unfold star
  split
  · exact List.suffix_cons _ _
  · exact List.suffix_refl _

/-- What follows a sectioning word: possibly a star, blanks, and the opening of an argument. -/
def headAfter? (level : SectionLevel) (text : Text) :
    Option ((SectionLevel × Bool) × Text) :=
  match Text.trimStart (star text).2 with
  | opening :: rest =>
    if opening = '[' ∨ opening = '{' then some ((level, (star text).1), rest) else none
  | [] => none

/-- The head of a sectioning command ends at a suffix. -/
theorem headAfter?_suffix {level : SectionLevel} {text rest : Text}
    {head : SectionLevel × Bool} (read : headAfter? level text = some (head, rest)) :
    rest <:+ text := by
  unfold headAfter? at read
  split at read
  · rename_i opening tail opened
    split at read
    · cases read
      have behind := Text.trimStart_suffix (star text).2
      rw [opened] at behind
      exact ((List.suffix_cons opening _).trans behind).trans (star_suffix text)
    · simp at read
  · simp at read

/-- The reader of the heads of sectioning commands. -/
def head : Reader (SectionLevel × Bool) :=
  ((controlWord fun word => (SectionLevel.ofCommand? word).isSome).filterMap
    SectionLevel.ofCommand?).andThen headAfter? headAfter?_suffix

/-- The tag that starts the document proper. -/
def documentTag : Text := Environment.beginTag "document".toList

/-- The sectioning commands of a text, in order. -/
def ofText (text : Text) : List SectionMarker :=
  let start := (Text.suffixAt? documentTag text).getD text
  let bytes := text.byteLength
  (head.occurrences start).map fun found =>
    { level := found.value.1
      offset := Text.offsetIn bytes found.place
      starred := found.value.2 }

end SectionMarker
end TexStatements
