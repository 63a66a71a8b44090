import OperationGraph.Analysis.Error
import OperationGraph.Analysis.Operation
import OperationGraph.CommandLine.Command
import OperationGraph.CommandLine.Flag
import OperationGraph.CommandLine.Run
import OperationGraph.Definition.Basic
import OperationGraph.Definition.Check
import OperationGraph.Definition.Parser
import OperationGraph.Definition.Prelude
import OperationGraph.Definition.Printer
import OperationGraph.Definition.TypeSystem
import OperationGraph.Digest.Xxh64
import OperationGraph.Document.Basic
import OperationGraph.Document.Parser
import OperationGraph.Document.Reader
import OperationGraph.Duration
import OperationGraph.Event.Basic
import OperationGraph.Event.Bus
import OperationGraph.Event.Dispatch
import OperationGraph.Event.Script
import OperationGraph.Failure
import OperationGraph.Files
import OperationGraph.Graph.Analyze
import OperationGraph.Graph.Basic
import OperationGraph.Graph.Export
import OperationGraph.Http.CrossOrigin
import OperationGraph.Http.Message
import OperationGraph.Http.RequestId
import OperationGraph.Http.Target
import OperationGraph.Json.Basic
import OperationGraph.Json.Fault
import OperationGraph.Json.Parser
import OperationGraph.Json.Printer
import OperationGraph.Json.Text
import OperationGraph.Log
import OperationGraph.Main
import OperationGraph.Metrics.Basic
import OperationGraph.Metrics.Exposition
import OperationGraph.Metrics.Histogram
import OperationGraph.Moment
import OperationGraph.Number.Binary
import OperationGraph.Number.Decimal
import OperationGraph.Number.Integer
import OperationGraph.Proofs.Definition.Checks
import OperationGraph.Proofs.Definition.Lexemes
import OperationGraph.Proofs.Definition.Named
import OperationGraph.Proofs.Definition.Page
import OperationGraph.Proofs.Definition.Reading
import OperationGraph.Proofs.Definition.Recall
import OperationGraph.Proofs.Definition.Spelling
import OperationGraph.Proofs.Definition.Writing
import OperationGraph.Proofs.Document.Choice
import OperationGraph.Proofs.Document.Parts
import OperationGraph.Proofs.Document.Reading
import OperationGraph.Proofs.Event.Publications
import OperationGraph.Proofs.Event.Subscriptions
import OperationGraph.Proofs.Graph.Agreement
import OperationGraph.Proofs.Graph.Faults
import OperationGraph.Proofs.Graph.Locations
import OperationGraph.Proofs.Graph.Pruning
import OperationGraph.Proofs.Graph.Recursion
import OperationGraph.Proofs.Graph.Termination
import OperationGraph.Proofs.Graph.Traversal
import OperationGraph.Proofs.Graph.Typing
import OperationGraph.Proofs.Metrics.Totals
import OperationGraph.Proofs.Number.Digits
import OperationGraph.Proofs.Number.Exact
import OperationGraph.Proofs.Number.Exchange
import OperationGraph.Proofs.Number.Nearest
import OperationGraph.Proofs.Number.Numeral
import OperationGraph.Proofs.Number.Rounding
import OperationGraph.Proofs.Number.Shortest
import OperationGraph.Proofs.Number.Whole
import OperationGraph.Proofs.Schema.Closed
import OperationGraph.Proofs.Schema.DefaultLiterals
import OperationGraph.Proofs.Schema.Defaults
import OperationGraph.Proofs.Schema.FixedPoint
import OperationGraph.Proofs.Schema.Legibility
import OperationGraph.Proofs.Schema.Likeness
import OperationGraph.Proofs.Schema.Loading
import OperationGraph.Proofs.Schema.Lookup
import OperationGraph.Proofs.Schema.Members
import OperationGraph.Proofs.Schema.Origin
import OperationGraph.Proofs.Schema.PossibleTypes
import OperationGraph.Proofs.Schema.ReadAgain
import OperationGraph.Proofs.Schema.References
import OperationGraph.Proofs.Schema.Reloading
import OperationGraph.Proofs.Schema.Rendering
import OperationGraph.Proofs.Schema.Renewal
import OperationGraph.Proofs.Schema.Reordering
import OperationGraph.Proofs.Schema.Respelling
import OperationGraph.Proofs.Schema.Roots
import OperationGraph.Proofs.Schema.RoundTrip
import OperationGraph.Proofs.Selection.Agreement
import OperationGraph.Proofs.Selection.DeadBranch
import OperationGraph.Proofs.Selection.Depth
import OperationGraph.Proofs.Selection.Entering
import OperationGraph.Proofs.Selection.Faults
import OperationGraph.Proofs.Selection.GroupOrder
import OperationGraph.Proofs.Selection.Grouping
import OperationGraph.Proofs.Selection.Narrowing
import OperationGraph.Proofs.Selection.Opening
import OperationGraph.Proofs.Selection.Origin
import OperationGraph.Proofs.Selection.PassedBy
import OperationGraph.Proofs.Selection.Pruning
import OperationGraph.Proofs.Selection.Recorded
import OperationGraph.Proofs.Selection.Separation
import OperationGraph.Proofs.Selection.SingleType
import OperationGraph.Proofs.Selection.SpreadOnce
import OperationGraph.Proofs.Selection.Visits
import OperationGraph.Proofs.Service.Accounting
import OperationGraph.Proofs.Service.Answers
import OperationGraph.Proofs.Service.BodyLimit
import OperationGraph.Proofs.Service.Canonical
import OperationGraph.Proofs.Service.Encodings
import OperationGraph.Proofs.Service.Exchange
import OperationGraph.Proofs.Service.Received
import OperationGraph.Proofs.Service.Remembering
import OperationGraph.Proofs.Service.Written
import OperationGraph.Proofs.Success
import OperationGraph.Proofs.Text.Ordered
import OperationGraph.Proofs.Token.Lexemes
import OperationGraph.Proofs.Token.Pieces
import OperationGraph.Proofs.Token.Settled
import OperationGraph.Proofs.Token.Strings
import OperationGraph.Proofs.Trace.Interleaving
import OperationGraph.Proofs.Value.Conformance
import OperationGraph.Proofs.Value.Exactness
import OperationGraph.Proofs.Value.OneOf
import OperationGraph.Proofs.Watcher.Generations
import OperationGraph.Schema.Basic
import OperationGraph.Schema.Build
import OperationGraph.Schema.Builtin
import OperationGraph.Schema.Load
import OperationGraph.Schema.Render
import OperationGraph.Schema.TypeRef
import OperationGraph.Selection.Collect
import OperationGraph.Selection.Inclusion
import OperationGraph.Selection.MergedField
import OperationGraph.Service.Cache
import OperationGraph.Service.Fingerprint
import OperationGraph.Service.Handler
import OperationGraph.Service.Incoming
import OperationGraph.Service.Reply
import OperationGraph.Service.Request
import OperationGraph.Service.SchemaSource
import OperationGraph.Settings.Basic
import OperationGraph.Settings.Decode
import OperationGraph.Settings.File
import OperationGraph.Settings.Layers
import OperationGraph.Source
import OperationGraph.Text.Base64
import OperationGraph.Text.Blank
import OperationGraph.Text.Hex
import OperationGraph.Text.Lower
import OperationGraph.Text.Printable
import OperationGraph.Text.Quoted
import OperationGraph.Text.Separated
import OperationGraph.Text.Sorted
import OperationGraph.Text.Truth
import OperationGraph.Text.Utf8
import OperationGraph.Token.Basic
import OperationGraph.Token.BlockText
import OperationGraph.Token.Scan
import OperationGraph.Toml.Document
import OperationGraph.Toml.Expression
import OperationGraph.Toml.Fault
import OperationGraph.Toml.Names
import OperationGraph.Toml.Scalar
import OperationGraph.Toml.Text
import OperationGraph.Trace.Span
import OperationGraph.Value.Basic
import OperationGraph.Value.Coerce
import OperationGraph.Value.Exchange
import OperationGraph.Value.Key
import OperationGraph.Value.OfLiteral
import OperationGraph.Watcher
import OperationGraph.Yaml.Contents
import OperationGraph.Yaml.Cursor
import OperationGraph.Yaml.Fault
import OperationGraph.Yaml.Node
import OperationGraph.Yaml.Resolution
import OperationGraph.Yaml.Scalar
import OperationGraph.Yaml.Tag
import OperationGraph.Yaml.Token
import OperationGraph.Yaml.TokenQueue
