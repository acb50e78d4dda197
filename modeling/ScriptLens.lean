import ScriptLens.Diagnosis
import ScriptLens.Editor.Position
import ScriptLens.Editor.Value
import ScriptLens.Failure
import ScriptLens.Host
import ScriptLens.Layout.Edit
import ScriptLens.Layout.Format
import ScriptLens.Layout.Spacing
import ScriptLens.Location
import ScriptLens.Main
import ScriptLens.Number.Binary64
import ScriptLens.Number.Shortest
import ScriptLens.Proofs.Layout.Arrange
import ScriptLens.Proofs.Layout.Comments
import ScriptLens.Proofs.Layout.DocComments
import ScriptLens.Proofs.Layout.Idempotence
import ScriptLens.Proofs.Layout.Laid
import ScriptLens.Proofs.Layout.Meaning
import ScriptLens.Proofs.Layout.Normal
import ScriptLens.Proofs.Layout.Punctuation
import ScriptLens.Proofs.Layout.Rows
import ScriptLens.Proofs.Layout.Rules
import ScriptLens.Proofs.Layout.Spaced
import ScriptLens.Proofs.Layout.Stretch
import ScriptLens.Proofs.Layout.Tokens
import ScriptLens.Proofs.Located
import ScriptLens.Proofs.Session.History
import ScriptLens.Proofs.Symbol.Positions
import ScriptLens.Proofs.Syntax.CorrectPrefix
import ScriptLens.Proofs.Syntax.Declarations
import ScriptLens.Proofs.Syntax.Failures
import ScriptLens.Proofs.Syntax.ReadsExpr
import ScriptLens.Proofs.Syntax.Relocation
import ScriptLens.Proofs.Syntax.Rendering
import ScriptLens.Proofs.Syntax.RoundTrip
import ScriptLens.Proofs.Syntax.SilentTokens
import ScriptLens.Proofs.Syntax.WellFormed
import ScriptLens.Proofs.Text.Lines
import ScriptLens.Proofs.Token.Cuts
import ScriptLens.Proofs.Token.Fronts
import ScriptLens.Proofs.Token.Locations
import ScriptLens.Query.Completion
import ScriptLens.Query.Snapshot
import ScriptLens.Query.Word
import ScriptLens.Server.Backend
import ScriptLens.Server.Handler
import ScriptLens.Server.Options
import ScriptLens.Session.Basic
import ScriptLens.Session.Event
import ScriptLens.Symbol.Basic
import ScriptLens.Symbol.Builtin
import ScriptLens.Symbol.Collect
import ScriptLens.Symbol.Walk
import ScriptLens.Syntax.Context
import ScriptLens.Syntax.Read
import ScriptLens.Syntax.Tree
import ScriptLens.Text.Blank
import ScriptLens.Text.Digit
import ScriptLens.Text.Graphic
import ScriptLens.Text.Letter
import ScriptLens.Text.Lines
import ScriptLens.Text.Quoted
import ScriptLens.Text.Ranges
import ScriptLens.Text.Substitute
import ScriptLens.Token.Basic
import ScriptLens.Token.Scan
import ScriptLens.Proofs.Layout.SameTokens
import ScriptLens.Proofs.Session.Diagnostics
import ScriptLens.Proofs.Syntax.Joining
import ScriptLens.Proofs.Syntax.Declared
import ScriptLens.Proofs.Symbol.Variables
import ScriptLens.Proofs.Layout.Edits
import ScriptLens.Proofs.Token.Words
import ScriptLens.Proofs.Query.AtDeclarations
import ScriptLens.Proofs.Session.Overrun
import ScriptLens.Proofs.Server.Requests
import ScriptLens.Proofs.Server.Publications
import ScriptLens.Proofs.Syntax.Operations
import ScriptLens.Proofs.Syntax.Postfixes
import ScriptLens.Proofs.Syntax.Leaves
import ScriptLens.Proofs.Syntax.Listing
import ScriptLens.Proofs.Session.Queries
import ScriptLens.Proofs.Token.Slices
import ScriptLens.Proofs.Syntax.Documentation
import ScriptLens.Proofs.Layout.Terminators
import ScriptLens.Proofs.Layout.Invariance
import ScriptLens.Proofs.Layout.NormalForm
import ScriptLens.Proofs.Editor.Offsets
import ScriptLens.Proofs.Query.AtWords
import ScriptLens.Proofs.Query.Signatures
import ScriptLens.Proofs.Query.Scope
import ScriptLens.Proofs.Query.Members
import ScriptLens.Proofs.Text.Display
import ScriptLens.Proofs.Syntax.Quotations
import ScriptLens.Proofs.Session.Underlines
import ScriptLens.Proofs.Token.Literals
import ScriptLens.Proofs.Token.Remarks
import ScriptLens.Proofs.Session.Messages
import ScriptLens.Proofs.Symbol.Visits
import ScriptLens.Proofs.Layout.Stability
import ScriptLens.Proofs.Syntax.Descent
import ScriptLens.Proofs.Syntax.Progress
import ScriptLens.Proofs.Syntax.Agreement
import ScriptLens.Proofs.Syntax.Termination
import ScriptLens.Proofs.Symbol.Walks
import ScriptLens.Proofs.Token.Cursor
