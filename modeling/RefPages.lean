import RefPages.Text.Blank
import RefPages.Text.Lines
import RefPages.Comment.Token
import RefPages.Comment.Lines
import RefPages.Comment.Basic
import RefPages.Subject
import RefPages.Reference
import RefPages.Disk.Error
import RefPages.Failure
import RefPages.Path
import RefPages.Page.Options
import RefPages.Page.FrontMatter
import RefPages.Page.Basic
import RefPages.Syntax.Tree
import RefPages.Syntax.Lexeme
import RefPages.Syntax.Cursor
import RefPages.Syntax.Form
import RefPages.Syntax.Grammar.Rule
import RefPages.Syntax.Grammar.Types
import RefPages.Syntax.Grammar.Patterns
import RefPages.Syntax.Grammar.Expressions
import RefPages.Syntax.Grammar.Markup
import RefPages.Syntax.Grammar.Statements
import RefPages.Syntax.Parse
import RefPages.Text.Quoted
import RefPages.Source.Declaration
import RefPages.Source.Member
import RefPages.Source.Resolve
import RefPages.Source.File
import RefPages.Decimal.Binary
import RefPages.Decimal.Shortest
import RefPages.Toml.Value
import RefPages.Toml.Scalar
import RefPages.Toml.Document
import RefPages.Settings.Decode
import RefPages.Settings.Basic
import RefPages.Text.Bytes
import RefPages.Disk.Basic
import RefPages.Log
import RefPages.Project.Extract
import RefPages.Project.Generate
import RefPages.Project.Check
import RefPages.Project.Events
import RefPages.Project.Load
import RefPages.Diff.Edit
import RefPages.Diff.Shortest
import RefPages.Diff.Compact
import RefPages.Diff.Lines
import RefPages.Json.Basic
import RefPages.Cli.Arguments
import RefPages.Cli.Style
import RefPages.Cli.LogFilter
import RefPages.Cli.ReferenceText
import RefPages.Cli.ReportText
import RefPages.Cli.Run
import RefPages.Cli.Footprint
import RefPages.Main
import RefPages.Proofs.Path
import RefPages.Proofs.Disk.Location
import RefPages.Proofs.Disk.Change
import RefPages.Proofs.Project.Atomicity
import RefPages.Proofs.Project.Agreement
import RefPages.Proofs.Comment.Token
import RefPages.Proofs.Comment.Walk
import RefPages.Proofs.Comment.Lines
import RefPages.Proofs.Comment.RoundTrip
import RefPages.Proofs.Source.Merge
import RefPages.Proofs.Source.Flatten
import RefPages.Proofs.Comment.Cleaned
import RefPages.Proofs.Comment.Removal
import RefPages.Proofs.Page.Tags
import RefPages.Proofs.Project.Kept
import RefPages.Proofs.Source.Origin
import RefPages.Proofs.Syntax.Opening
import RefPages.Proofs.Syntax.Outlook
import RefPages.Proofs.Page.Front
import RefPages.Proofs.Source.Appended
import RefPages.Proofs.Source.Override
import RefPages.Proofs.Cli.SinglePage
import RefPages.Proofs.Project.Independence
import RefPages.Proofs.Comment.LineByLine
import RefPages.Proofs.Comment.Closing
import RefPages.Proofs.Comment.Respacing
import RefPages.Proofs.Comment.Fences
import RefPages.Proofs.Source.Distinct
import RefPages.Proofs.Source.Termination
import RefPages.Proofs.Source.Signatures
import RefPages.Proofs.Comment.Word
import RefPages.Proofs.Page.Framing
import RefPages.Proofs.Page.Deprecated
import RefPages.Proofs.Syntax.Thinned
import RefPages.Proofs.Source.Likeness
import RefPages.Proofs.Source.Thinned
import RefPages.Proofs.Source.ThinnedFile
import RefPages.Proofs.Source.Interrupted
import RefPages.Proofs.Source.Wrapped
import RefPages.Proofs.Comment.Braces
import RefPages.Proofs.Comment.Parameter
import RefPages.Proofs.Source.OptionalMarks
import RefPages.Proofs.Syntax.Receiver
import RefPages.Proofs.Source.Receiver
import RefPages.Proofs.Source.Batches
import RefPages.Proofs.Settings.Table
import RefPages.Proofs.Settings.Selection
import RefPages.Proofs.Cli.Selection
import RefPages.Proofs.Project.Elsewhere
import RefPages.Proofs.Comment.LongestMatch
import RefPages.Proofs.Comment.Position
import RefPages.Proofs.Page.Escaping
