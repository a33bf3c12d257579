import TexStatements.Declaration.Reader

/-!
# Wrapper environments

An environment may be defined by code that opens a declared one. It is then declared as well, with
the caption and the numbering of the first declared environment that its code opens. Every
environment definition is removed from the text, so that its code is never taken for a statement.
-/
namespace TexStatements

/-- A definition of an environment by its code. -/
structure Wrapper where
  /-- The name of the environment. -/
  name : Text
  /-- The code that opens it. -/
  opening : Text

/-- Outcome of reading an environment definition behind its keyword. -/
inductive WrapperReading where
  /-- The text is no environment definition. -/
  | absent
  /-- A group of the definition is never closed. -/
  | unterminated
  /-- A definition and the text after it. -/
  | found (wrapper : Wrapper) (rest : Text)

namespace WrapperReading

/-- Read a brace group that the definition needs. -/
def needGroup (text : Text) (next : Text → Text → WrapperReading) : WrapperReading :=
  match Group.readBraced text with
  | .absent => absent
  | .unterminated => unterminated
  | .closed inner rest => next inner rest

/-- Read on behind at most so many bracket groups. -/
def skipBrackets (text : Text) (next : Text → WrapperReading) : Nat → WrapperReading
  | 0 => next text
  | count + 1 =>
    match Group.readBracketed text with
    | .absent => next text
    | .unterminated => unterminated
    | .closed _ rest => skipBrackets rest next count

/-- Read a definition: the name, up to two bracket groups, the opening and the closing code. -/
def ofText (text : Text) : WrapperReading :=
  needGroup text fun name rest =>
    skipBrackets rest (fun rest =>
      needGroup rest fun opening rest =>
        needGroup rest fun _ rest => found ⟨name.trim, opening⟩ rest) 2

end WrapperReading

namespace Wrapper

/-- The places where opening code may open an environment, with the names opened there: tags with
a name of one word, and control sequences. -/
def openings (code : Text) : List (Found Text) :=
  (Environment.openingWord.occurrences code ++ ControlSequence.reader.occurrences code).mergeSort
    fun left right => right.place.length ≤ left.place.length

/-- The first declared environment that opening code opens. -/
def wrapped? (code : Text) (table : DeclarationTable) : Option Declaration :=
  (openings code).findSome? fun found => NameMap.find? table found.value

/-- The declaration of a wrapper: numbered the way the wrapped environment is. -/
def declaration (wrapper : Wrapper) (wrapped : Declaration) : Declaration :=
  { Declaration.new wrapper.name wrapped.caption wrapped.starred with
    shared? := wrapped.shared?
    within? := wrapped.within? }

/-- Enter the declaration of a wrapper if its code opens a declared environment. -/
def enter (wrapper : Wrapper) (table : DeclarationTable) : DeclarationTable × List Warning :=
  match wrapped? wrapper.opening table with
  | some wrapped => table.declare (wrapper.declaration wrapped)
  | none => (table, [])

/-- The control words that define environments. -/
def words : List Text := ["newenvironment", "renewenvironment"].map String.toList

/-- The text behind a keyword and the star that may follow it. -/
def behindStar : Text → Text
  | '*' :: rest => rest
  | text => text

end Wrapper

/-- What the removal of environment definitions has come to. -/
structure WrapperRemoval where
  /-- The text that is not yet decided about: what is before it is copied or removed. -/
  pending : Text
  /-- What was copied, in pieces from last to first. -/
  copied : List Text
  /-- The declarations so far. -/
  table : DeclarationTable
  /-- The warnings so far. -/
  warnings : List Warning

/-- Go on to a keyword. A keyword inside a definition that is already removed does not count. -/
def WrapperRemoval.step (state : WrapperRemoval) (found : Found Keyword) : WrapperRemoval :=
  if state.pending.length < found.place.length then state
  else match WrapperReading.ofText (Wrapper.behindStar found.value.after) with
    | .absent => state
    | .unterminated =>
      { state with
        warnings := state.warnings ++ [.unclosedEnvironmentDefinition found.place.excerpt] }
    | .found wrapper rest =>
      let (table, warnings) := wrapper.enter state.table
      { pending := rest
        copied := state.pending.before found.place :: state.copied
        table
        warnings := state.warnings ++ warnings }

namespace DeclarationTable

/-- Remove all environment definitions from a text and declare those that wrap a declared
environment: the text without them, the table and the warnings. -/
def resolveWrappers (table : DeclarationTable) (text : Text) :
    Text × DeclarationTable × List Warning :=
  let final := ((keyword Wrapper.words.contains).occurrences text).foldl WrapperRemoval.step
    ⟨text, [], table, []⟩
  (final.copied.reverse.flatten ++ final.pending, final.table, final.warnings)

end DeclarationTable
end TexStatements
