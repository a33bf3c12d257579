import TexStatements.Comment
import TexStatements.Declaration.Wrapper
import TexStatements.Macro.Family

/-!
# Normalized documents

A raw document is brought to a form in which environments can be found as fixed texts. The steps
run in a fixed order and each reads what the one before it left: comments are removed, the three
definition families are carried out, declarations are collected, wrapper environments are
resolved, and delimiters are brought to their literal spelling. Counter aliases are collected
after the first family and applied to the declarations.

A document is normalized only if its expansions end (`Document.ends`).
-/
namespace TexStatements

/-- A document with its macros expanded and its definitions removed. -/
structure Document where
  /-- The expanded text. -/
  text : Text
  /-- The declared environments. -/
  declarations : DeclarationTable
  /-- Counter edges from outside the declarations: child and parent. -/
  counterEdges : List (Text × Text)
  /-- Whether numbers come before captions. -/
  swapsNumbers : Bool
  /-- Problems met on the way. -/
  warnings : List Warning

namespace Document

/-- Normalize a raw text. -/
def ofText (raw : Text) : Document :=
  let primitives := DefinitionFamily.primitive.expand (Comment.strip raw)
  let aliases := AliasMap.collect primitives.text
  let operators := DefinitionFamily.operator.expand primitives.text
  let commands := DefinitionFamily.command.expand operators.text
  let (declared, repeated) := DeclarationTable.collect NameMap.empty commands.text
  let (unwrapped, declarations, unclosed) :=
    (declared.applyAliases aliases).resolveWrappers commands.text
  let text := Environment.literalDelimiters unwrapped
  { text
    declarations
    counterEdges := (TexStatements.counterEdges text).map fun (child, parent) =>
      (aliases.resolve child, aliases.resolve parent)
    swapsNumbers := TexStatements.swapsNumbers text
    warnings := primitives.warnings ++ operators.warnings ++ commands.warnings ++ repeated ++
      unclosed }

/-- The expansions that are carried out to normalize a raw text: those of the three families, each
over the text that the family before it left. -/
def expansions (raw : Text) : List (MacroTable × Text) :=
  let stripped := Comment.strip raw
  let primitives := DefinitionFamily.primitive.expand stripped
  let operators := DefinitionFamily.operator.expand primitives.text
  DefinitionFamily.primitive.expansions stripped ++
    DefinitionFamily.operator.expansions primitives.text ++
    DefinitionFamily.command.expansions operators.text

/-- Whether normalizing a raw text ends: each of its expansions does. -/
def ends (raw : Text) : Bool :=
  (expansions raw).all fun (table, text) => (table.expand? text).isSome

end Document
end TexStatements
