import TexStatements.ControlSequence
import TexStatements.Group.Basic

/-!
# Positions of groups and control sequences

The readers of groups and control sequences go from suffix to suffix. Here the same readers are
asked by byte offset and answer with byte offsets. Every offset that they answer lies between two
characters, because it is that of a suffix.
-/
namespace TexStatements
namespace Text

/-- Offset of the delimiter that closes a group whose inside starts at an offset. -/
def closingAt? (text : Text) (delimiters : Group.Delimiters) (inside : Nat) : Option Nat :=
  (delimiters.close? (text.fromByte inside)).map fun (_, rest) =>
    text.offsetOf (delimiters.closing :: rest)

/-- Offset of the brace that closes a group whose inside starts at an offset. -/
abbrev closingBraceAt? (text : Text) (inside : Nat) : Option Nat :=
  text.closingAt? .braces inside

/-- Offset of the bracket that closes a group whose inside starts at an offset. -/
abbrev closingBracketAt? (text : Text) (inside : Nat) : Option Nat :=
  text.closingAt? .brackets inside

/-- Offset of the first character that is not blank from an offset on. An offset that is none of a
character stands for the end of the text. -/
def afterBlanks (text : Text) (position : Nat) : Nat :=
  if text.isBoundary position then text.offsetOf (text.fromByte position).trimStart
  else text.byteLength

/-- A group with the offsets of its delimiters. -/
structure GroupSpan where
  /-- Offset of the opening delimiter. -/
  opening : Nat
  /-- Offset of the closing delimiter. -/
  closing : Nat
  /-- Offset just behind the group. -/
  stop : Nat
  /-- The text between the delimiters. -/
  inner : Text

/-- Outcome of looking for a group from an offset on. -/
inductive GroupSpanReading where
  /-- The next character that is not blank opens no group. -/
  | absent
  /-- A group opens at this offset and is never closed. -/
  | unterminated (opening : Nat)
  /-- A whole group. -/
  | closed (span : GroupSpan)

/-- Offsets for the reading of a group behind blanks. -/
def spanOf (text start : Text) : Group.Reading → GroupSpanReading
  | .absent => .absent
  | .unterminated => .unterminated (text.offsetOf start)
  | .closed inner rest =>
    let opening := text.offsetOf start
    let closing := opening + 1 + inner.byteLength
    .closed ⟨opening, closing, text.offsetOf rest, inner⟩

/-- Look for a group from an offset on, behind blanks. -/
def groupAt (text : Text) (delimiters : Group.Delimiters) (position : Nat) : GroupSpanReading :=
  let start := text.fromByte (text.afterBlanks position)
  spanOf text start (Group.readGroup delimiters start)

/-- Look for a brace group from an offset on, behind blanks. -/
abbrev bracedAt (text : Text) (position : Nat) : GroupSpanReading :=
  text.groupAt .braces position

/-- Look for a bracket group from an offset on, behind blanks. -/
abbrev bracketedAt (text : Text) (position : Nat) : GroupSpanReading :=
  text.groupAt .brackets position

/-- The control sequence whose backslash is at an offset: its name and the offset behind it. -/
def controlSequenceAt? (text : Text) (position : Nat) : Option (Text × Nat) :=
  if text.isBoundary position then
    (ControlSequence.read? (text.fromByte position)).map fun (name, rest) =>
      (name, text.offsetOf rest)
  else none

/-- Whether a control word that ends at an offset is complete. -/
def endsControlWordAt (text : Text) (position : Nat) : Bool :=
  endsControlWord (text.fromByte position)

end Text
end TexStatements
