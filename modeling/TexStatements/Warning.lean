import TexStatements.Environment.Delimiter
import TexStatements.Text.Numeral

/-!
# Warnings

Nearly every problem inside a document can be recovered from and becomes a warning. A warning is a
cause with what it concerns; its kind, its wording and the piece of source that it names follow
from the cause.
-/
namespace TexStatements

/-- Part of the document that a statement belongs to. -/
inductive Region where
  /-- Before the appendix. -/
  | main
  /-- From the appendix on. -/
  | appendix
deriving DecidableEq, Repr

/-- The name of a part of the document. -/
def Region.name : Region → Text
  | .main => "main".toList
  | .appendix => "appendix".toList

/-- Category of a problem that extraction recovers from. -/
inductive WarningKind where
  /-- A definition whose body is never closed; it is left in place. -/
  | unterminatedDefinition
  /-- A macro that expands to itself, directly or through others. -/
  | selfReferentialMacro
  /-- An environment declared more than once. -/
  | duplicateDeclaration
  /-- A declaration with both a shared and a parent counter. -/
  | conflictingCounter
  /-- A counter edge that would make a counter its own ancestor. -/
  | counterCycle
  /-- An environment that is opened and never closed. -/
  | unterminatedEnvironment
  /-- A number of bodies that differs from the number of headings. -/
  | countMismatch
deriving DecidableEq, Repr

/-- The name under which a kind is reported. -/
def WarningKind.name : WarningKind → Text
  | .unterminatedDefinition => "unterminated-definition".toList
  | .selfReferentialMacro => "self-referential-macro".toList
  | .duplicateDeclaration => "duplicate-declaration".toList
  | .conflictingCounter => "conflicting-counter".toList
  | .counterCycle => "counter-cycle".toList
  | .unterminatedEnvironment => "unterminated-environment".toList
  | .countMismatch => "count-mismatch".toList

/-- All kinds of warnings. -/
def WarningKind.all : List WarningKind :=
  [.unterminatedDefinition, .selfReferentialMacro, .duplicateDeclaration, .conflictingCounter,
    .counterCycle, .unterminatedEnvironment, .countMismatch]

/-- A problem that extraction recovered from. -/
inductive Warning where
  /-- A macro definition that starts like this has no closing brace. -/
  | unclosedMacro (excerpt : Text)
  /-- An environment definition that starts like this has no closing brace. -/
  | unclosedEnvironmentDefinition (excerpt : Text)
  /-- A macro reaches its own name and was dropped. -/
  | selfReference (name : Text)
  /-- An environment was declared again. -/
  | repeatedDeclaration (environment : Text)
  /-- A declaration names both a counter to share and a parent. -/
  | sharedAndWithin (environment : Text)
  /-- An edge was refused because it closes a cycle. -/
  | cyclicCounter (child parent : Text)
  /-- An opening tag has no closing tag behind it. -/
  | unclosedEnvironment (environment : Text)
  /-- Bodies and headings of a part of the document differ in number. -/
  | bodyCount (region : Region) (bodies headings : Nat)
deriving DecidableEq

namespace Warning

/-- The category of a warning. -/
def kind : Warning → WarningKind
  | unclosedMacro _ => .unterminatedDefinition
  | unclosedEnvironmentDefinition _ => .unterminatedDefinition
  | selfReference _ => .selfReferentialMacro
  | repeatedDeclaration _ => .duplicateDeclaration
  | sharedAndWithin _ => .conflictingCounter
  | cyclicCounter _ _ => .counterCycle
  | unclosedEnvironment _ => .unterminatedEnvironment
  | bodyCount _ _ _ => .countMismatch

/-- The wording of a warning. -/
def message : Warning → Text
  | unclosedMacro _ => "definition body has no closing brace".toList
  | unclosedEnvironmentDefinition _ => "environment definition has no closing brace".toList
  | selfReference _ => "macro refers to itself and cannot be expanded".toList
  | repeatedDeclaration _ =>
    "environment declared more than once; keeping the first declaration".toList
  | sharedAndWithin _ =>
    "shared counter and parent counter are exclusive; ignoring the parent".toList
  | cyclicCounter child parent =>
    "counter '".toList ++ child ++ "' cannot be numbered within '".toList ++ parent ++ ['\'']
  | unclosedEnvironment environment =>
    Environment.beginTag environment ++ " has no matching \\end".toList
  | bodyCount region bodies headings =>
    region.name ++ " region: ".toList ++ numeral bodies ++ " bodies for ".toList ++
      numeral headings ++ " numbered statements".toList

/-- The piece of source that a warning names. -/
def source? : Warning → Option Text
  | unclosedMacro excerpt => some excerpt
  | unclosedEnvironmentDefinition excerpt => some excerpt
  | selfReference name => some ('\\' :: name)
  | repeatedDeclaration environment => some environment
  | sharedAndWithin environment => some environment
  | cyclicCounter child _ => some child
  | unclosedEnvironment environment => some (Environment.beginTag environment)
  | bodyCount _ _ _ => none

/-- The line that reports a warning of a kind, with the piece of source that it names. -/
def line (kind : WarningKind) (message : Text) (source? : Option Text) : Text :=
  "Warning [".toList ++ kind.name ++ "]: ".toList ++ message ++
    match source? with
    | some source => " (".toList ++ source ++ [')']
    | none => []

/-- The line that reports a warning. -/
def display (warning : Warning) : Text := line warning.kind warning.message warning.source?

end Warning

/-- Number of characters in the excerpt of an unclosed definition. -/
def excerptLength : Nat := 40

/-- The start of a text, as warnings quote it. -/
def Text.excerpt (text : Text) : Text := text.take excerptLength

end TexStatements
