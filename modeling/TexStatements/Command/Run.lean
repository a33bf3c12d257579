import TexStatements.Command.Arguments
import TexStatements.Command.Json
import TexStatements.Diagnostic.Check
import TexStatements.Source.Disk
import TexStatements.Source.MainFile
import TexStatements.Text.Decimal

/-!
# Runs

A run reads documents, writes records or a report, and ends with an exit code. It reaches files,
the standard streams and the clock only through a host, so that the same run takes place on a real
machine or in memory.
-/
namespace TexStatements

/-- What a run needs from the machine that it runs on. -/
structure Host (m : Type → Type) where
  /-- The disk. -/
  disk : Disk m
  /-- All bytes of the standard input. -/
  input : m (List UInt8)
  /-- Write to the standard output. -/
  print : Text → m Unit
  /-- Write to the standard error. -/
  report : Text → m Unit
  /-- Do something within a number of seconds, or give it up. -/
  within : {α : Type} → Nat → m α → m (Option α)

/-- Number of levels of included files that are followed. -/
def inclusionDepth : Nat := 16

/-- Name and version of the program. -/
def versionLine : Text := "theorex 0.1.0\n".toList

/-- How the program is used. -/
def usage : Text :=
  Text.join ['\n'] (["Usage:",
    "  theorex extract [INPUT] [-o FILE] [-k KINDS] [--statements] [--dedupe]",
    "  theorex batch INPUT -o DIR [-t SECONDS] [--statements]",
    "  theorex check [INPUT] [--no-color]",
    "Options: -v, --verbose; -q, --quiet; -h, --help; -V, --version", ""].map String.toList)

namespace Host

variable {m : Type → Type} [Monad m]

/-- Read a document below a directory, in one text with what it includes. -/
def inlineBelow (host : Host m) (directory name content : Text) : ExceptT Failure m Text :=
  ExceptT.adapt ReadFailure.toFailure
    (((DiskTree.below directory).toSourceTree host.disk).inlineImports inclusionDepth name content)

/-- Read the document in one file. -/
def readFile (host : Host m) (path : Text) : ExceptT Failure m Text := do
  let bytes ← ExceptT.adapt DiskError.toFailure (ExceptT.mk (host.disk.readFile path))
  let content ← ExceptT.adapt DecodeFailure.toFailure (ExceptT.mk (pure (decodeSource bytes)))
  host.inlineBelow ((Path.parent? path).getD ['.']) ((Path.fileName? path).getD []) content

/-- Read the document whose main file is in a directory. -/
def readDirectory (host : Host m) (path : Text) : ExceptT Failure m Text := do
  let tree := (DiskTree.below path).toSourceTree host.disk
  match ← (tree.mainFile? : m (Option Text)) with
  | none => throw (.noMainFile path)
  | some main =>
    let content ← ExceptT.adapt ReadFailure.toFailure (tree.read main)
    host.inlineBelow path main content

/-- Read the document at a path. -/
def readPaper (host : Host m) (path : Text) : ExceptT Failure m Text := do
  if ← (host.disk.isDirectory path : m Bool) then host.readDirectory path else host.readFile path

/-- Read the document at a path, or the one on the standard input. -/
def readInput (host : Host m) : Option Text → ExceptT Failure m Text
  | some path => host.readPaper path
  | none => do
    let bytes ← (host.input : m (List UInt8))
    ExceptT.adapt DecodeFailure.toFailure (ExceptT.mk (pure (decodeSource bytes)))

/-- Write records to a file: how many there are. -/
def writeRecords (host : Host m) (path : Text) (records : List Record) :
    ExceptT Failure m Nat := do
  ExceptT.adapt DiskError.toFailure
    (ExceptT.mk (host.disk.writeFile path (Json.records records ++ ['\n'])))
  pure records.length

/-- The failure of a run on a document whose macros expand without end. A machine that has no more
room for such an expansion gives up the whole run; here it is only the document that fails. -/
def endlessExpansion : Failure := .internal "macro expansion does not end".toList

/-- The options that the extracting command asks for. -/
def extractOptions (kinds? : Option (List Text)) (statements dedupe : Bool) : Options :=
  let options := if statements then Options.statements else Options.default
  let options := match kinds? with
    | some kinds => options.withKinds kinds
    | none => options
  { options with dedupeTitles := options.dedupeTitles || dedupe }

/-- The number of statements as messages give it. -/
def statementCount (count : Nat) : Text := numeral count ++ " statement(s)".toList

/-- Extract one document and write its records. -/
def extract (host : Host m) (input? output? : Option Text) (options : Options) (quiet : Bool) :
    ExceptT Failure m Nat := do
  let source ← host.readInput input?
  let extraction ← (TexStatements.extract? source options).getDM (throw endlessExpansion)
  unless quiet do
    for warning in extraction.warnings do
      host.report ("⚠ ".toList ++ warning.display ++ ['\n'])
  match output? with
  | some path => do
    let count ← host.writeRecords path extraction.records
    host.report
      ("✓ ".toList ++ statementCount count ++ " written to: ".toList ++ path ++ ['\n'])
  | none => host.print (Json.records extraction.records ++ ['\n'])
  pure 0

/-- Check one document. An error among the diagnostics shows in the exit code. -/
def check (host : Host m) (input? : Option Text) (colored : Bool) : ExceptT Failure m Nat := do
  let source ← host.readInput input?
  let report ← (checkDocument? source .default).getDM (throw endlessExpansion)
  host.print (report.format colored ++ ['\n'])
  pure (if report.hasErrors then 1 else 0)

/-- A paper of a batch. Its path and its name are Unicode texts. -/
structure Paper where
  /-- The path of its directory or its file. -/
  path : Text
  /-- The name under which it is written. -/
  name : Text

/-- The name of the paper at a path: that of its directory, or that of its file without the
extension. The name `paper` is meant for entries whose names are no Unicode; here names are Unicode
texts, so that no entry of a directory is given it. -/
def paperName (path : Text) (isDirectory : Bool) : Text :=
  (if isDirectory then Path.fileName? path else Path.stem? path).getD "paper".toList

/-- The papers among the entries of a directory: its directories and document files. -/
def selectPapers (host : Host m) (directory : Text) : List Text → m (List Paper)
  | [] => pure []
  | name :: more => do
    let path := Path.join directory name
    let isDirectory ← host.disk.isDirectory path
    let papers ← host.selectPapers directory more
    if isDirectory || Path.extension? path == some "tex".toList then
      pure (⟨path, paperName path isDirectory⟩ :: papers)
    else pure papers

/-- The papers of a directory in the order of their names. -/
def listPapers (host : Host m) (directory : Text) : ExceptT Failure m (List Paper) := do
  let names ← ExceptT.adapt DiskError.toFailure (ExceptT.mk (host.disk.entries directory))
  host.selectPapers directory (Text.sort names)

/-- Extract one paper within a number of seconds. -/
def extractPaper (host : Host m) (path : Text) (options : Options) (timeout : Nat) :
    ExceptT Failure m Extraction := do
  let work : m (Except Failure Extraction) :=
    (do
      let source ← host.readPaper path
      (TexStatements.extract? source options).getDM (throw endlessExpansion) :
        ExceptT Failure m Extraction).run
  match ← (host.within timeout work : m (Option (Except Failure Extraction))) with
  | some outcome => ExceptT.mk (pure outcome)
  | none => throw (.internal ("timed out after ".toList ++ numeral timeout ++ ['s']))

/-- The file that the records of a paper are written to. -/
def paperOutput (output : Text) (paper : Paper) : Text :=
  Path.join output (paper.name ++ ".json".toList)

/-- Extract and write one paper, and tell how it went: whether it was written. -/
def runPaper (host : Host m) (output : Text) (options : Options) (timeout : Nat)
    (paper : Paper) : m Bool := do
  let target := paperOutput output paper
  let written ← (do
    let extraction ← host.extractPaper paper.path options timeout
    host.writeRecords target extraction.records : ExceptT Failure m Nat).run
  match written with
  | .ok count => do
    host.report
      ("✓ ".toList ++ target ++ " (".toList ++ statementCount count ++ ")\n".toList)
    pure true
  | .error failure => do
    host.report ("✗ ".toList ++ paper.name ++ " - ".toList ++ failure.message ++ ['\n'])
    pure false

/-- Extract and write papers in order: the number of those that were written. -/
def runPapers (host : Host m) (output : Text) (options : Options) (timeout : Nat) :
    List Paper → m Nat
  | [] => pure 0
  | paper :: more => do
    let written ← host.runPaper output options timeout paper
    let others ← host.runPapers output options timeout more
    pure (others + if written then 1 else 0)

/-- The share of papers that were written, in percent. -/
def successRate (written total : Nat) : Float :=
  if total = 0 then 0.0 else 100.0 * Float.ofNat written / Float.ofNat total

/-- The line that ends a batch. -/
def batchSummary (written total : Nat) : Text :=
  "\nBatch extraction complete: ".toList ++ numeral written ++ " of ".toList ++ numeral total ++
    " papers parsed (".toList ++ fixedPoint 1 (successRate written total) ++ "%)\n".toList

/-- Extract every paper of a directory. A paper that fails is told and passed over. -/
def batch (host : Host m) (input output : Text) (timeout : Nat) (statements : Bool) :
    ExceptT Failure m Nat := do
  ExceptT.adapt DiskError.toFailure (ExceptT.mk (host.disk.makeDirectories output))
  let options := extractOptions none statements true
  let papers ← host.listPapers input
  let written ← (host.runPapers output options timeout papers : m Nat)
  host.report (batchSummary written papers.length)
  pure 0

/-- Carry out a command. -/
def execute (host : Host m) (invocation : Invocation) : ExceptT Failure m Nat :=
  match invocation.command with
  | .extract input? output? kinds? statements dedupe =>
    host.extract input? output? (extractOptions kinds? statements dedupe) invocation.quiet
  | .batch input output timeout statements => host.batch input output timeout statements
  | .check input? colored => host.check input? colored

/-- Exit code of a command line that is rejected. -/
def misuseCode : Nat := 2

/-- Carry out what a command line asks for and answer with the exit code. -/
def run (host : Host m) (arguments : List Text) : m Nat := do
  match Request.read arguments with
  | .error misuse =>
    host.report ("error: ".toList ++ misuse.message ++ ['\n'])
    pure misuseCode
  | .ok .version =>
    host.print versionLine
    pure 0
  | .ok .help =>
    host.print usage
    pure 0
  | .ok (.run invocation) =>
    match ← (host.execute invocation).run with
    | .ok code => pure code
    | .error failure =>
      host.report ("Error: ".toList ++ failure.message ++ ['\n'])
      pure 1

end Host
end TexStatements
