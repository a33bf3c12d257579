import TexStatements.Environment.Delimiter

/-!
# Comments

A percent sign starts a comment that runs to the end of its line, unless an odd number of
backslashes before it makes it a literal percent sign. The `comment` environment hides everything
up to its first closing tag. Comments are removed before anything else is looked for, and masked
by blanks where positions must be kept.
-/
namespace TexStatements
namespace Comment

/-- Divide the rest of a line into its code and its comment; the flag says whether the next
character is escaped. -/
def divideFrom (escaped : Bool) : Text → Text × Text
  | [] => ([], [])
  | first :: rest =>
    if first = '%' ∧ escaped = false then ([], first :: rest)
    else
      let (code, comment) := divideFrom (first == '\\' && !escaped) rest
      (first :: code, comment)

/-- Divide a line into its code and its comment. The comment starts with the first percent sign
that is not escaped; it is empty when there is none. -/
def divide (line : Text) : Text × Text := divideFrom false line

/-- Code and comment together are the line. -/
theorem divideFrom_append (escaped : Bool) (line : Text) :
    (divideFrom escaped line).1 ++ (divideFrom escaped line).2 = line := by
  induction line generalizing escaped with
  | nil => rfl
  | cons first rest ih =>
    rw [divideFrom]
    split
    · rfl
    · simp [ih]

/-- The code of a line. -/
def codeOf (line : Text) : Text := (divide line).1

/-- The comment of a line, with the line feed that ends it. -/
def commentOf (line : Text) : Text := (divide line).2

/-- Byte offset at which the comment of a line starts. -/
def start? (line : Text) : Option Nat :=
  if (commentOf line).isEmpty then none else some (codeOf line).byteLength

/-- A line without its comment; the line feed that ends the comment is kept. -/
def stripLine (line : Text) : Text :=
  codeOf line ++ if (commentOf line).getLast? = some '\n' then ['\n'] else []

/-- A text without the comments that percent signs start. -/
def stripLines (text : Text) : Text := text.lines.flatMap stripLine

/-- The literal name group of the comment environment. -/
def nameGroup : Text := "\x7bcomment\x7d".toList

/-- The reader of one tag of the comment environment: blanks may stand before the brace, and none
inside it. -/
def tag (part : Environment.End) : Reader Unit :=
  (controlWord fun word => word == part.word).andThen
    (fun _ text => (Text.dropLiteral? nameGroup text.trimStart).map fun rest => ((), rest))
    (by
      intro value text result rest success
      simp only [Option.map_eq_some_iff, Prod.mk.injEq] at success
      obtain ⟨tail, dropped, -, rfl⟩ := success
      rw [Text.dropLiteral?_eq_some_iff] at dropped
      exact (dropped ▸ List.suffix_append nameGroup tail).trans (Text.trimStart_suffix text))

/-- The reader of a whole comment environment, up to its first closing tag. -/
def block : Reader Unit :=
  (tag .opening).andThen
    (fun _ text => ((tag .closing).find? text).map fun (_, found) => ((), found.rest))
    (by
      intro value text result rest success
      simp only [Option.map_eq_some_iff, Prod.mk.injEq] at success
      obtain ⟨⟨front, found⟩, located, -, rfl⟩ := success
      obtain ⟨whole, advances⟩ := Reader.find?_eq_some located
      exact advances.suffix.trans (whole ▸ List.suffix_append front found.place))

/-- A text without its comments: first those of percent signs, then the comment environments. -/
def strip (text : Text) : Text := block.replaceAll (fun _ => []) (stripLines text)

/-- A line with blanks for the bytes of its comment. -/
def maskLine (line : Text) : Text :=
  codeOf line ++ (commentOf line).flatMap fun c =>
    if c = '\n' then [c] else List.replicate c.utf8Size ' '

/-- A text with blanks for the bytes of the comments that percent signs start, so that every
offset keeps its line and column. -/
def mask (text : Text) : Text := text.lines.flatMap maskLine

/-- The part of the last line that a text has come to. -/
def lastLine (front : Text) : Text := (front.reverse.takeWhile (· != '\n')).reverse

/-- Whether the end of a text lies in a comment that a percent sign started on its last line. -/
def opensIn (front : Text) : Bool := !(commentOf (lastLine front)).isEmpty

end Comment
end TexStatements
