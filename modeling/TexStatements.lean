import TexStatements.Text.Basic
import TexStatements.Text.Blank
import TexStatements.Text.Case
import TexStatements.Text.Decimal
import TexStatements.ControlSequence
import TexStatements.Group.Basic
import TexStatements.Comment
import TexStatements.Macro.Basic
import TexStatements.Macro.Expansion
import TexStatements.Warning
import TexStatements.Macro.Definition
import TexStatements.Macro.Resolution
import TexStatements.Declaration.Alias
import TexStatements.Declaration.Reader
import TexStatements.Declaration.Wrapper
import TexStatements.Macro.Family
import TexStatements.Counter.Alpha
import TexStatements.Counter.Forest
import TexStatements.Counter.Plan
import TexStatements.Extraction
import TexStatements.Diagnostic.Basic
import TexStatements.Diagnostic.Check
import TexStatements.Group.Position
import TexStatements.Failure
import TexStatements.Source.Decode
import TexStatements.Source.Path
import TexStatements.Source.Inline
import TexStatements.Source.MainFile
import TexStatements.Source.Disk
import TexStatements.Source.Volume
import TexStatements.Command.Arguments
import TexStatements.Command.Json
import TexStatements.Command.Run
import TexStatements.Command.Session
import TexStatements.Main
import TexStatements.Proofs.Counter.Invariant
import TexStatements.Proofs.Counter.History
import TexStatements.Proofs.Counter.Replay
import TexStatements.Proofs.Extraction.WarningKinds
import TexStatements.Proofs.Statement.Agreement
import TexStatements.Proofs.Counter.Edges
import TexStatements.Proofs.Declaration.Reading
import TexStatements.Proofs.Macro.Absence
import TexStatements.Proofs.Paper.Basic
import TexStatements.Proofs.Paper.Bodies
import TexStatements.Proofs.Paper.Layout
import TexStatements.Proofs.Paper.RoundTrip
import TexStatements.Proofs.Macro.Completion
import TexStatements.Proofs.Macro.Renaming
import TexStatements.Proofs.Extraction.Parts
import TexStatements.Proofs.Statement.Regions
import TexStatements.Proofs.Extraction.Labels
import TexStatements.Proofs.Statement.Body
import TexStatements.Proofs.Counter.Course
import TexStatements.Proofs.Counter.Digits
import TexStatements.Proofs.Counter.Letters
import TexStatements.Proofs.Extraction.Records
import TexStatements.Proofs.Extraction.Selection
import TexStatements.Proofs.Extraction.Kinds
import TexStatements.Proofs.Extraction.Titles
import TexStatements.Proofs.Statement.Provenance
import TexStatements.Proofs.Group.Position
import TexStatements.Proofs.Counter.Run
import TexStatements.Proofs.Declaration.Table
import TexStatements.Proofs.Extraction.Comments
import TexStatements.Proofs.Extraction.Bodies
import TexStatements.Proofs.Macro.Depth
import TexStatements.Proofs.Macro.CallSite
import TexStatements.Proofs.Macro.LetAlias
import TexStatements.Proofs.Counter.Alike
import TexStatements.Proofs.Statement.Permuted
import TexStatements.Proofs.Counter.Registration
import TexStatements.Proofs.Extraction.DeclarationOrder
import TexStatements.Proofs.Counter.Refusal
import TexStatements.Proofs.Statement.Locate
import TexStatements.Proofs.Statement.LabelRemoval
import TexStatements.Proofs.Declaration.Alias
import TexStatements.Proofs.Group.Balance
import TexStatements.Proofs.Declaration.Options
import TexStatements.Proofs.Declaration.Syntaxes
import TexStatements.Proofs.Declaration.Inheritance
import TexStatements.Proofs.Declaration.WrapperRemoval
import TexStatements.Proofs.Text.Bytes
import TexStatements.Proofs.Diagnostic.Location
import TexStatements.Proofs.Comment.Mask
import TexStatements.Proofs.Diagnostic.Braces
import TexStatements.Proofs.Environment.Delimiter
import TexStatements.Proofs.Environment.Literal
import TexStatements.Proofs.Diagnostic.Environments
import TexStatements.Proofs.Diagnostic.Unclosed
import TexStatements.Proofs.Diagnostic.Positions
import TexStatements.Proofs.Source.Decode
import TexStatements.Proofs.Source.Packages
import TexStatements.Proofs.Source.MainFile
import TexStatements.Proofs.Comment.Commented
import TexStatements.Proofs.Command.Batch
import TexStatements.Proofs.Macro.Pattern
import TexStatements.Proofs.Extraction.SlicePositions
