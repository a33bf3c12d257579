import TexStatements.Declaration.Caption
import TexStatements.Text.Blank
import TexStatements.Warning

/-!
# Declarations

A declaration makes an environment theorem-like: it gives the caption, says whether statements
are numbered, and which counter numbers them. That counter is the environment's own, possibly
reset by a parent, or one that is shared with another environment, never both at once. The first
declaration of an environment is in force.
-/
namespace TexStatements

/-- Name of the environment that stands for every theorem-like environment where bodies are
extracted. The `@` keeps it out of reach of ordinary documents. -/
def canonicalEnvironment : Text := "theorex@statement".toList

/-- A declared theorem-like environment. -/
structure Declaration where
  /-- The name of the environment. -/
  name : Text
  /-- The caption that heads its statements. -/
  caption : Text
  /-- Whether its statements have no number. -/
  starred : Bool
  /-- The counter shared with another environment. -/
  shared? : Option Text := none
  /-- The counter that resets this one. -/
  within? : Option Text := none
deriving DecidableEq

namespace Declaration

/-- A declaration with a counter of its own; a blank caption stands for the default one. -/
def new (name caption : Text) (starred : Bool) : Declaration :=
  { name, starred, caption := caption.nonBlank?.getD (defaultCaption name) }

/-- The counter that statements of the environment step. -/
def counter (declaration : Declaration) : Text := declaration.shared?.getD declaration.name

end Declaration

/-- The declared environments in order of declaration. -/
abbrev DeclarationTable := NameMap Declaration

namespace DeclarationTable

/-- Enter a declaration under its name, with a shared counter excluding a parent. A second
declaration of a name is refused with a warning, and the empty and the canonical name silently. -/
def declare (table : DeclarationTable) (declaration : Declaration) :
    DeclarationTable × List Warning :=
  if declaration.name.isEmpty || declaration.name == canonicalEnvironment then (table, [])
  else if NameMap.contains table declaration.name then
    (table, [.repeatedDeclaration declaration.name])
  else if declaration.shared?.isSome && declaration.within?.isSome then
    (NameMap.insert table declaration.name { declaration with within? := none },
      [.sharedAndWithin declaration.name])
  else (NameMap.insert table declaration.name declaration, [])

/-- Enter declarations in order, gathering the warnings. -/
def declareAll (table : DeclarationTable) :
    List Declaration → DeclarationTable × List Warning
  | [] => (table, [])
  | declaration :: more =>
    let (table, first) := table.declare declaration
    let (table, others) := declareAll table more
    (table, first ++ others)

end DeclarationTable
end TexStatements
