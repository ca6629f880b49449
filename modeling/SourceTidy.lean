import SourceTidy.Cli.Arguments
import SourceTidy.Cli.Request
import SourceTidy.Cli.Run
import SourceTidy.Config.Assignment
import SourceTidy.Config.Attribute
import SourceTidy.Config.Complaint
import SourceTidy.Config.Load
import SourceTidy.Config.Merge
import SourceTidy.Config.Reading
import SourceTidy.Config.Settings
import SourceTidy.Config.Source
import SourceTidy.Glob.Mask
import SourceTidy.Glob.MaskSet
import SourceTidy.Glob.Wildcard
import SourceTidy.Json.Document
import SourceTidy.Json.Lexeme
import SourceTidy.Main
import SourceTidy.Php.Lexer
import SourceTidy.Php.Rules
import SourceTidy.Php.Scan
import SourceTidy.Php.ShortArrays
import SourceTidy.Php.Token
import SourceTidy.Proofs.Attempt
import SourceTidy.Proofs.Cli.ExitStatus
import SourceTidy.Proofs.Cli.PathArguments
import SourceTidy.Proofs.Cli.Startup
import SourceTidy.Proofs.Config.Extensions
import SourceTidy.Proofs.Config.Failures
import SourceTidy.Proofs.Config.Gather
import SourceTidy.Proofs.Config.KeyPaths
import SourceTidy.Proofs.Config.LastWriter
import SourceTidy.Proofs.Config.Layer
import SourceTidy.Proofs.Config.Layers
import SourceTidy.Proofs.Config.Merge
import SourceTidy.Proofs.Glob.Histories
import SourceTidy.Proofs.Glob.Masks
import SourceTidy.Proofs.Glob.Wildcard
import SourceTidy.Proofs.Json.Blanks
import SourceTidy.Proofs.Json.Reading
import SourceTidy.Proofs.Php.Brackets
import SourceTidy.Proofs.Php.Comments
import SourceTidy.Proofs.Php.Declaration
import SourceTidy.Proofs.Php.Escapes
import SourceTidy.Proofs.Php.Indentation
import SourceTidy.Proofs.Php.Lexemes
import SourceTidy.Proofs.Php.Literals
import SourceTidy.Proofs.Php.Names
import SourceTidy.Proofs.Php.Pairing
import SourceTidy.Proofs.Php.Parentheses
import SourceTidy.Proofs.Php.ShortArrays
import SourceTidy.Proofs.Php.Tiles
import SourceTidy.Proofs.Report.Location
import SourceTidy.Proofs.Run.Agreement
import SourceTidy.Proofs.Run.Commit
import SourceTidy.Proofs.Run.Committed
import SourceTidy.Proofs.Run.Convergence
import SourceTidy.Proofs.Run.Frame
import SourceTidy.Proofs.Run.Independence
import SourceTidy.Proofs.Run.Isolation
import SourceTidy.Proofs.Run.Mishaps
import SourceTidy.Proofs.Run.Preview
import SourceTidy.Proofs.Run.Step
import SourceTidy.Proofs.Run.Visiting
import SourceTidy.Proofs.Task.Blanks
import SourceTidy.Proofs.Task.Builtin
import SourceTidy.Proofs.Task.ClosingTags
import SourceTidy.Proofs.Task.Fixers
import SourceTidy.Proofs.Task.JsonSyntax
import SourceTidy.Proofs.Task.LineBreaks
import SourceTidy.Proofs.Task.Readings
import SourceTidy.Proofs.Task.Stable
import SourceTidy.Proofs.Task.Tabs
import SourceTidy.Proofs.Task.TrailingBlanks
import SourceTidy.Proofs.Task.Unfixed
import SourceTidy.Proofs.Text.Bulk
import SourceTidy.Proofs.Text.Order
import SourceTidy.Proofs.Text.Readings
import SourceTidy.Proofs.Text.RoundTrip
import SourceTidy.Proofs.Text.SpaceIndentation
import SourceTidy.Proofs.Text.Utf8
import SourceTidy.Proofs.Toml.Distinct
import SourceTidy.Proofs.Tree.Descent
import SourceTidy.Proofs.Tree.Discovery
import SourceTidy.Proofs.Tree.Faults
import SourceTidy.Proofs.Tree.Listing
import SourceTidy.Proofs.Tree.Outline
import SourceTidy.Proofs.Tree.RealPath
import SourceTidy.Proofs.Tree.Replace
import SourceTidy.Proofs.Tree.Resolved
import SourceTidy.Proofs.Tree.Room
import SourceTidy.Proofs.Tree.Selection
import SourceTidy.Proofs.Tree.Shown
import SourceTidy.Proofs.Tree.Visits
import SourceTidy.Proofs.Tree.WellFormed
import SourceTidy.Proofs.Value.Distinct
import SourceTidy.Report.Finding
import SourceTidy.Report.Markup
import SourceTidy.Report.Progress
import SourceTidy.Report.Status
import SourceTidy.Report.Styled
import SourceTidy.Report.Table
import SourceTidy.Run.File
import SourceTidy.Run.Mishaps
import SourceTidy.Run.Pass
import SourceTidy.Run.Plan
import SourceTidy.Task.Basic
import SourceTidy.Task.Builtin
import SourceTidy.Task.JsonDocument
import SourceTidy.Task.PhpSource
import SourceTidy.Task.PlainText
import SourceTidy.Task.Registry
import SourceTidy.Task.Script
import SourceTidy.Text.CaseFold
import SourceTidy.Text.Category
import SourceTidy.Text.Cells
import SourceTidy.Text.CodePoint
import SourceTidy.Text.Lines
import SourceTidy.Text.Quoted
import SourceTidy.Text.Utf8
import SourceTidy.Toml.Document
import SourceTidy.Toml.Lexeme
import SourceTidy.Toml.Namespace
import SourceTidy.Tree.Basic
import SourceTidy.Tree.Build
import SourceTidy.Tree.Faults
import SourceTidy.Tree.Path
import SourceTidy.Tree.Replace
import SourceTidy.Tree.Walk
import SourceTidy.Value.Basic
import SourceTidy.Value.Binary64
import SourceTidy.Value.Moment
