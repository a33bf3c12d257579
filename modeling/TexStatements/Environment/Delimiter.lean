import TexStatements.ControlSequence
import TexStatements.Group.Flat

/-!
# Environment delimiters

An environment stands between `\begin{name}` and `\end{name}`. Blanks are allowed around the name
and before the brace; a text is brought to the literal spelling before it is searched for
environments, so that afterwards a tag can be found as a fixed text.
-/
namespace TexStatements
namespace Environment

/-- The two ends of an environment. -/
inductive End where
  /-- The opening end. -/
  | opening
  /-- The closing end. -/
  | closing
deriving DecidableEq, Repr

/-- The control word of an end, without its backslash. -/
def End.word : End → Text
  | .opening => "begin".toList
  | .closing => "end".toList

/-- The end that a control word writes. -/
def End.ofWord? (word : Text) : Option End :=
  if word = End.opening.word then some .opening
  else if word = End.closing.word then some .closing
  else none

/-- The end that a word writes is the one with that word. -/
theorem End.ofWord?_eq_some_iff {word : Text} {part : End} :
    End.ofWord? word = some part ↔ word = part.word := by
  constructor
  · intro isEnd
    unfold End.ofWord? at isEnd
    split at isEnd
    · cases isEnd
      assumption
    · split at isEnd
      · cases isEnd
        assumption
      · cases isEnd
  · rintro rfl
    cases part <;> rfl

/-- The tag of an end, in its literal spelling. -/
def End.tag (part : End) (name : Text) : Text := '\\' :: part.word ++ '{' :: name ++ ['}']

/-- The literal tag that opens an environment. -/
def beginTag (name : Text) : Text := End.opening.tag name

/-- The literal tag that closes an environment. -/
def endTag (name : Text) : Text := End.closing.tag name

/-- A tag starts with its backslash, so it is not empty. -/
theorem End.tag_ne_nil (part : End) (name : Text) : part.tag name ≠ [] := by simp [End.tag]

/-- One end of a named environment. -/
structure Delimiter where
  /-- Which end it is. -/
  part : End
  /-- The name, without the blanks around it. -/
  name : Text
deriving DecidableEq

/-- The literal spelling of a delimiter. -/
def Delimiter.tag (delimiter : Delimiter) : Text := delimiter.part.tag delimiter.name

/-- The reader of delimiters, with blanks allowed before the brace and around the name. -/
def delimiter : Reader Delimiter :=
  (controlWord fun word => (End.ofWord? word).isSome).thenFlatGroup fun word inner =>
    (End.ofWord? word).map fun part => ⟨part, inner.trim⟩

/-- A text with every delimiter in its literal spelling. -/
def literalDelimiters (text : Text) : Text := delimiter.replaceAll Delimiter.tag text

/-- The reader of opening delimiters whose name is one word. -/
def openingWord : Reader Text :=
  (controlWord fun word => word == End.opening.word).thenFlatGroup fun _ inner =>
    let name := inner.trim
    if name.isEmpty || name.any isBlank then none else some name

end Environment
end TexStatements
