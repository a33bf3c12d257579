import TexStatements.Macro.Definition
import TexStatements.Macro.Resolution

/-!
# Expansion of a definition family

One family of definitions is collected, resolved and expanded over a whole text.
-/
namespace TexStatements

/-- A text in which one family of definitions has been carried out. -/
structure ExpandedText where
  /-- The text without the definitions and with their calls expanded. -/
  text : Text
  /-- The macros that were in force. -/
  table : MacroTable
  /-- Problems met on the way. -/
  warnings : List Warning

namespace DefinitionFamily

/-- Collect, resolve and expand the definitions of a family over a text. -/
def expand (family : DefinitionFamily) (text : Text) : ExpandedText :=
  let (stripped, collected, unclosed) := MacroTable.collect NameMap.empty family text
  let (table, dropped) := collected.resolve
  ⟨table.expand stripped, table, unclosed ++ dropped⟩

/-- The expansions that a family carries out over a text: those of the bodies, and that of the text
without the definitions. -/
def expansions (family : DefinitionFamily) (text : Text) : List (MacroTable × Text) :=
  let (stripped, collected, _) := MacroTable.collect NameMap.empty family text
  collected.resolveExpansions ++ [(collected.resolve.1, stripped)]

end DefinitionFamily
end TexStatements
