import TexStatements.Text.Numeral

/-!
# Diagnostics

A diagnostic has a severity and a message, and may name a place, a piece of source and a remedy.
A report lists diagnostics and is closed by a summary of their numbers; on a terminal the
severities are told apart by colors.
-/
namespace TexStatements

/-- How much a diagnostic matters. -/
inductive Severity where
  /-- A note. -/
  | info
  /-- Numbers or bodies may be approximate. -/
  | warning
  /-- Statements will be missing or wrongly attributed. -/
  | error
deriving DecidableEq, Repr

/-- The word for a severity. -/
def Severity.name : Severity → Text
  | .info => "info".toList
  | .warning => "warning".toList
  | .error => "error".toList

/-- All severities. -/
def Severity.all : List Severity := [.info, .warning, .error]

/-- A place in a text, counted from one; columns count bytes. -/
structure Location where
  /-- The line. -/
  line : Nat
  /-- The column. -/
  column : Nat
deriving DecidableEq, Repr

/-- Something that a check has to say about a document. -/
structure Diagnostic where
  /-- How much it matters. -/
  severity : Severity
  /-- What it says. -/
  message : Text
  /-- The place that it is about. -/
  location? : Option Location := none
  /-- The piece of source that it is about. -/
  source? : Option Text := none
  /-- What can be done about it. -/
  suggestion? : Option Text := none
deriving DecidableEq

namespace Diagnostic

/-- A part of a diagnostic that may be missing. -/
def optional {α : Type} (part? : Option α) (write : α → Text) : Text :=
  match part? with
  | some part => write part
  | none => []

/-- The lines of a diagnostic. -/
def display (diagnostic : Diagnostic) : Text :=
  diagnostic.severity.name ++ ": ".toList ++ diagnostic.message ++
    optional diagnostic.location? (fun location =>
      "\n  --> line ".toList ++ numeral location.line ++ ':' :: numeral location.column) ++
    optional diagnostic.source? (fun source => "\n  |\n  | ".toList ++ source) ++
    optional diagnostic.suggestion? (fun suggestion => "\n  = help: ".toList ++ suggestion)

end Diagnostic

/-- What a check has to say, in order. -/
structure CheckReport where
  /-- The diagnostics in order. -/
  diagnostics : List Diagnostic

namespace CheckReport

/-- The report that says nothing. -/
def empty : CheckReport := ⟨[]⟩

/-- A report with one diagnostic more. -/
def add (report : CheckReport) (diagnostic : Diagnostic) : CheckReport :=
  ⟨report.diagnostics ++ [diagnostic]⟩

/-- Number of diagnostics of a severity. -/
def count (report : CheckReport) (severity : Severity) : Nat :=
  report.diagnostics.countP fun diagnostic => diagnostic.severity = severity

/-- Whether there is an error among the diagnostics. -/
def hasErrors (report : CheckReport) : Bool := 0 < report.count .error

/-- The numbers of errors, warnings and notes, those that are not zero. -/
def summary (report : CheckReport) : Text :=
  let parts := [(Severity.error, "error".toList), (.warning, "warning".toList),
      (.info, "note".toList)].filterMap fun (severity, noun) =>
    let number := report.count severity
    if number = 0 then none else some (counted number noun)
  if parts.isEmpty then "no issues found".toList else Text.join ", ".toList parts

/-- The code that starts a color on a terminal. -/
def colorCode (number : Nat) : Text := '\x1b' :: '[' :: numeral number ++ ['m']

/-- The code of red. -/
def red : Text := colorCode 31

/-- The code of green. -/
def green : Text := colorCode 32

/-- The code of yellow. -/
def yellow : Text := colorCode 33

/-- The code of blue. -/
def blue : Text := colorCode 34

/-- The code that ends a color. -/
def plainColor : Text := colorCode 0

/-- The color of a severity. -/
def severityColor : Severity → Text
  | .error => red
  | .warning => yellow
  | .info => blue

/-- The color of the summary: that of the gravest problem, and green when there is none. -/
def summaryColor (report : CheckReport) : Text :=
  if report.hasErrors then red else if 0 < report.count .warning then yellow else green

/-- A text in a color, where colors are wanted. -/
def paint (colored : Bool) (color text : Text) : Text :=
  if colored then color ++ text ++ plainColor else text

/-- The text of a report. -/
def format (report : CheckReport) (colored : Bool) : Text :=
  (report.diagnostics.flatMap fun diagnostic =>
    paint colored (severityColor diagnostic.severity) diagnostic.display ++ ['\n', '\n']) ++
    paint colored report.summaryColor ("Summary: ".toList ++ report.summary)

end CheckReport
end TexStatements
