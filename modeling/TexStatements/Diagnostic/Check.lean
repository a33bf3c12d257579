import TexStatements.Diagnostic.Basic
import TexStatements.Extraction

/-!
# Checking a document

A check tells what extraction makes of a document. It reports the warnings of the extraction, then
braces and environments that do not match outside comments, and ends with notes on the declared
environments and the number of statements. Comments are masked by blanks, so that every place is
one of the document as it was given.
-/
namespace TexStatements

/-- Byte offsets at which the lines of a text start, the first at the given one. -/
def lineStartsFrom (start : Nat) : Nat → Text → List Nat
  | _, [] => [start]
  | offset, first :: rest =>
    let next := offset + first.utf8Size
    if first = '\n' then start :: lineStartsFrom next next rest
    else lineStartsFrom start next rest

/-- Byte offsets at which the lines of a text start. -/
def lineStarts (text : Text) : List Nat := lineStartsFrom 0 0 text

/-- The place of a byte offset, given the offsets at which lines start. -/
def Location.ofOffset (starts : List Nat) (offset : Nat) : Location :=
  let passed := starts.takeWhile (· ≤ offset)
  { line := max passed.length 1, column := offset - passed.getLastD 0 + 1 }

namespace WarningKind

/-- How much a kind of warning matters. -/
def severity : WarningKind → Severity
  | .unterminatedDefinition => .error
  | .selfReferentialMacro => .warning
  | .duplicateDeclaration => .info
  | .conflictingCounter => .warning
  | .counterCycle => .warning
  | .unterminatedEnvironment => .error
  | .countMismatch => .warning

/-- What a kind of warning means for the extraction, or what can be done about it. -/
def remedy : WarningKind → Text
  | .unterminatedDefinition =>
    "The definition was dropped; close its body with '\x7d'".toList
  | .selfReferentialMacro => "Calls of this macro are left unexpanded".toList
  | .duplicateDeclaration => "Only the first declaration is used for numbering".toList
  | .conflictingCounter =>
    "Use either a shared counter or a parent counter, not both".toList
  | .counterCycle => "Remove the \\numberwithin that closes the cycle".toList
  | .unterminatedEnvironment => "Statements after this point are not extracted".toList
  | .countMismatch => "Numbering may be approximate for this document".toList

end WarningKind

/-- A warning as a diagnostic, at the first place where the input has its piece of source. -/
def Warning.diagnostic (input : Text) (starts : List Nat) (warning : Warning) : Diagnostic :=
  { severity := warning.kind.severity
    message := warning.kind.name ++ ": ".toList ++ warning.message
    location? := do
      let source ← warning.source?
      let (front, _) ← Text.cut? source input
      some (Location.ofOffset starts front.byteLength)
    source? := warning.source?
    suggestion? := some warning.kind.remedy }

namespace Diagnostic

/-- A closing brace that closes nothing. -/
def unmatchedBrace (location : Location) : Diagnostic :=
  { severity := .error
    message := "unmatched closing brace '\x7d'".toList
    location? := some location
    suggestion? := some "Check for missing opening brace".toList }

/-- Braces that are open at the end of the text, the outermost from the given line on. -/
def unclosedBraces (number line : Nat) : Diagnostic :=
  { severity := .error
    message := numeral number ++ " unclosed brace".toList ++
      (if number = 1 then [] else ['s']) ++ " (opened around line ".toList ++ numeral line ++ [')']
    suggestion? := some "Check for missing closing brace '\x7d'".toList }

/-- An environment that is closed under another name than it was opened. -/
def mismatchedEnvironment (openName : Text) (openLine : Nat) (name : Text)
    (location : Location) : Diagnostic :=
  { severity := .error
    message := "mismatched environment: opened '".toList ++ openName ++ "' at line ".toList ++
      numeral openLine ++ ", closed '".toList ++ name ++ "' at line ".toList ++
      numeral location.line
    location? := some location
    suggestion? := some ("Use ".toList ++ Environment.endTag openName) }

/-- An environment that is closed without having been opened. -/
def unmatchedEnd (name : Text) (location : Location) : Diagnostic :=
  { severity := .error
    message := "unmatched ".toList ++ Environment.endTag name
    location? := some location
    suggestion? := some "Check for missing \\begin".toList }

/-- An environment that is open at the end of the text. -/
def unclosedEnvironment (name : Text) (line : Nat) : Diagnostic :=
  { severity := .error
    message := "unclosed environment '".toList ++ name ++ "' (opened at line ".toList ++
      numeral line ++ [')']
    suggestion? := some ("Add ".toList ++ Environment.endTag name) }

end Diagnostic

/-- The diagnostics on braces, from a place on: its byte offset, the number of braces open there
and the line of the outermost. An escaped brace does not count, and neither does a closing brace
that closes nothing. -/
def braceDiagnostics (starts : List Nat) (offset depth openLine : Nat) : Text → List Diagnostic
  | [] => if depth = 0 then [] else [.unclosedBraces depth openLine]
  | first :: rest =>
    let next := offset + first.utf8Size
    if first = '\\' then
      match rest with
      | [] => if depth = 0 then [] else [.unclosedBraces depth openLine]
      | escaped :: rest =>
        braceDiagnostics starts (next + escaped.utf8Size) depth openLine rest
    else if first = '{' then
      let line := if depth = 0 then (Location.ofOffset starts offset).line else openLine
      braceDiagnostics starts next (depth + 1) line rest
    else if first = '}' then
      match depth with
      | 0 =>
        .unmatchedBrace (Location.ofOffset starts offset) ::
          braceDiagnostics starts next 0 openLine rest
      | depth + 1 => braceDiagnostics starts next depth openLine rest
    else braceDiagnostics starts next depth openLine rest

/-- An environment that is open, with the line of its opening. -/
structure OpenEnvironment where
  /-- The name. -/
  name : Text
  /-- The line on which it is opened. -/
  line : Nat

/-- The diagnostics on environments, from the delimiters that are left and the environments that
are open, innermost first. A closing delimiter always closes the innermost open environment. -/
def environmentDiagnostics (locate : Text → Location) :
    List OpenEnvironment → List (Found Environment.Delimiter) → List Diagnostic
  | opened, [] => opened.reverse.map fun entry => .unclosedEnvironment entry.name entry.line
  | opened, found :: more =>
    let location := locate found.place
    let name := found.value.name
    match found.value.part, opened with
    | .opening, _ => environmentDiagnostics locate (⟨name, location.line⟩ :: opened) more
    | .closing, [] => .unmatchedEnd name location :: environmentDiagnostics locate [] more
    | .closing, entry :: outer =>
      if entry.name = name then environmentDiagnostics locate outer more
      else .mismatchedEnvironment entry.name entry.line name location ::
        environmentDiagnostics locate outer more

/-- The diagnostics on the braces of a text. -/
def checkBraces (starts : List Nat) (text : Text) : List Diagnostic :=
  braceDiagnostics starts 0 0 0 text

/-- The diagnostics on the environments of a text. -/
def checkEnvironments (starts : List Nat) (text : Text) : List Diagnostic :=
  let bytes := text.byteLength
  environmentDiagnostics (fun place => Location.ofOffset starts (Text.offsetIn bytes place)) []
    (Environment.delimiter.occurrences text)

/-- The notes on what was extracted. -/
def extractionNotes (document : Document) (options : Options) (statements : Nat) :
    List Diagnostic :=
  (if document.declarations.entries.isEmpty then
    [{ severity := .info
       message := "no theorem declarations found, using the default environment set".toList
       suggestion? := some (Text.join ", ".toList options.defaultEnvironments) }]
  else []) ++
    [{ severity := .info, message := counted statements "statement".toList ++ " extracted".toList }]

/-- The report on a document whose normalization ends, checked the way extraction sees it. -/
def checkDocument (input : Text) (options : Options) : CheckReport :=
  let starts := lineStarts input
  let extraction := extract input options
  let masked := Comment.mask input
  ⟨extraction.warnings.map (Warning.diagnostic input starts) ++ checkBraces starts masked ++
    checkEnvironments starts masked ++
    extractionNotes (Document.ofText input) options extraction.records.length⟩

/-- Check a document. There is no report where expanding the macros of the document does not end. -/
def checkDocument? (input : Text) (options : Options) : Option CheckReport :=
  if Document.ends input then some (checkDocument input options) else none

end TexStatements
