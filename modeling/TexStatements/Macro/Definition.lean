import TexStatements.Group.Basic
import TexStatements.Macro.Basic
import TexStatements.Text.Numeral
import TexStatements.Warning

/-!
# Macro definitions

Macros are defined by three families of commands: `\def` and `\let`, `\newcommand`, and
`\DeclareMathOperator`. The definitions of one family are collected and removed from the text in
one pass. A definition whose body is never closed stays in the text and is reported; anything else
that is not a definition stays silently.
-/
namespace TexStatements

/-- A family of definition commands that is collected in one pass. -/
inductive DefinitionFamily where
  /-- `\def` with its variants, and `\let`. -/
  | primitive
  /-- `\newcommand` and its variants. -/
  | command
  /-- `\DeclareMathOperator`. -/
  | operator
deriving DecidableEq, Repr

/-- The control words of a family. -/
def DefinitionFamily.words : DefinitionFamily → List Text
  | .primitive => ["def", "edef", "gdef", "xdef", "let"].map String.toList
  | .command =>
    ["newcommand", "renewcommand", "providecommand", "DeclareRobustCommand"].map String.toList
  | .operator => ["DeclareMathOperator"].map String.toList

/-- Outcome of reading a definition behind its keyword. -/
inductive DefinitionReading where
  /-- The text is no definition of the family. -/
  | absent
  /-- The body opens and is never closed. -/
  | unterminated
  /-- A definition and the text after it. -/
  | found (definition : Macro) (rest : Text)

namespace DefinitionReading

/-- An absent definition where nothing was read. -/
def ofOption : Option (Macro × Text) → DefinitionReading
  | some (definition, rest) => found definition rest
  | none => absent

/-- Read a body that has to start here, blanks not counting, and make a macro of it. -/
def body (text : Text) (make : Text → Macro) : DefinitionReading :=
  match Group.readBraced text with
  | .absent => absent
  | .unterminated => unterminated
  | .closed inner rest => found (make inner) rest

/-- A control sequence that may stand behind blanks. -/
def name? (text : Text) : Option (Text × Text) := ControlSequence.read? text.trimStart

/-- Whether a character may stand in the parameter text of a primitive definition. -/
def isParameterText (c : Char) : Bool := c == '#' || isDigit c || isBlank c

/-- A primitive definition: a name, parameter text of numbered parameters only, and a body. -/
def primitive (text : Text) : DefinitionReading :=
  match name? text with
  | none => absent
  | some (name, rest) =>
    let parameters := rest.takeWhile (· != '{')
    let opened := rest.dropWhile (· != '{')
    if opened.isEmpty || !parameters.all isParameterText then absent
    else body opened (Macro.withRequired name (parameters.count '#'))

/-- A name and a control sequence, with an equals sign between them or not. The name becomes a
macro that calls the other one. A character in place of the control sequence is not followed. -/
def alias? (text : Text) : Option (Macro × Text) := do
  let (name, rest) ← name? text
  let rest := match rest.trimStart with
    | '=' :: rest => rest
    | rest => rest
  let (target, rest) ← name? rest
  some (Macro.plain name ('\\' :: target), rest)

/-- A macro name, with or without braces around it. -/
def bracedName? (text : Text) : Option (Text × Text) :=
  match Group.readBraced text with
  | .closed inner rest =>
    match ControlSequence.read? inner.trim with
    | some (name, []) => some (name, rest)
    | _ => none
  | .unterminated => none
  | .absent => name? text

/-- A text without the star that may start it. -/
def dropStar : Text → Text
  | '*' :: rest => rest
  | text => text

/-- A command definition: a name, the number of parameters and a default in brackets, a body. -/
def command (text : Text) : DefinitionReading :=
  match bracedName? (dropStar text) with
  | none => absent
  | some (name, rest) =>
    match Group.bracketed? rest with
    | none => body rest (Macro.plain name)
    | some (count, rest) =>
      match readCount? count.trim with
      | none => absent
      | some 0 => body rest (Macro.plain name)
      | some (arity + 1) =>
        match Group.bracketed? rest with
        | none => body rest (Macro.withRequired name (arity + 1))
        | some (default, rest) => body rest (Macro.withOptional name (arity + 1) default)

/-- The body of an operator macro: the operator's text in the font of running text. -/
def operatorBody (inner : Text) : Text := "\\text\x7b".toList ++ inner ++ ['}']

/-- An operator definition: a name and the operator's text. -/
def operator (text : Text) : DefinitionReading :=
  match bracedName? (dropStar text) with
  | none => absent
  | some (name, rest) => body rest fun inner => Macro.plain name (operatorBody inner)

/-- Read a definition of a family behind its keyword. -/
def ofKeyword (family : DefinitionFamily) (found : Keyword) : DefinitionReading :=
  match family with
  | .primitive =>
    if found.word = "let".toList then ofOption (alias? found.after) else primitive found.after
  | .command => command found.after
  | .operator => operator found.after

end DefinitionReading

/-- What a collection pass has come to. -/
structure Collection where
  /-- The text that is not yet decided about: what is before it is copied or removed. -/
  pending : Text
  /-- What was copied, in pieces from last to first. -/
  copied : List Text
  /-- The macros so far. -/
  table : MacroTable
  /-- The warnings so far, from last to first. -/
  warnings : List Warning

namespace Collection

/-- Whether a definition leaves an existing macro of its name alone. -/
def yields (word : Text) (table : MacroTable) (definition : Macro) : Bool :=
  word == "providecommand".toList && NameMap.contains table definition.name

/-- Go on to a keyword. A keyword inside a definition that is already removed does not count. -/
def step (family : DefinitionFamily) (state : Collection) (found : Found Keyword) : Collection :=
  if state.pending.length < found.place.length then state
  else match DefinitionReading.ofKeyword family found.value with
    | .absent => state
    | .unterminated =>
      { state with warnings := .unclosedMacro found.place.excerpt :: state.warnings }
    | .found definition rest =>
      { state with
        pending := rest
        copied := state.pending.before found.place :: state.copied
        table :=
          if yields found.value.word state.table definition then state.table
          else state.table.define definition }

end Collection

namespace MacroTable

/-- Collect the definitions of a family into a table: the text without them, the new table and
the warnings. -/
def collect (table : MacroTable) (family : DefinitionFamily) (text : Text) :
    Text × MacroTable × List Warning :=
  let found := (keyword family.words.contains).occurrences text
  let final := found.foldl (Collection.step family) ⟨text, [], table, []⟩
  (final.copied.reverse.flatten ++ final.pending, final.table, final.warnings.reverse)

end MacroTable
end TexStatements
