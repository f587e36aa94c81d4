import Stencil.Autoescape
import Stencil.Deferred
import Stencil.Engine
import Stencil.Error
import Stencil.Error.Raised
import Stencil.Execution.Basic
import Stencil.Execution.Sink
import Stencil.Files.Basic
import Stencil.Files.Path
import Stencil.Files.Text
import Stencil.Files.Tree
import Stencil.Files.Walk
import Stencil.Format
import Stencil.Json.Number
import Stencil.Json.Reader
import Stencil.Machine
import Stencil.Main
import Stencil.Member.Basic
import Stencil.Member.Parameter
import Stencil.Number.Basic
import Stencil.Number.Binary64
import Stencil.Number.Shortest
import Stencil.Proofs.Autoescape.Appending
import Stencil.Proofs.Autoescape.Decoding
import Stencil.Proofs.Autoescape.Outputs
import Stencil.Proofs.Autoescape.Refinement
import Stencil.Proofs.Autoescape.Seal
import Stencil.Proofs.Autoescape.Soundness
import Stencil.Proofs.Autoescape.Structure
import Stencil.Proofs.Autoescape.Texts
import Stencil.Proofs.Autoescape.Trees
import Stencil.Proofs.Autoescape.Walking
import Stencil.Proofs.Deferred.Once
import Stencil.Proofs.Error.Reports
import Stencil.Proofs.Execution.Actions
import Stencil.Proofs.Execution.Alike
import Stencil.Proofs.Execution.Collecting
import Stencil.Proofs.Execution.Concatenation
import Stencil.Proofs.Execution.Events
import Stencil.Proofs.Execution.Journal
import Stencil.Proofs.Execution.Pipeline
import Stencil.Proofs.Execution.Rules
import Stencil.Proofs.Execution.Script
import Stencil.Proofs.Files.Creation
import Stencil.Proofs.Files.Follow
import Stencil.Proofs.Files.Nodes
import Stencil.Proofs.Files.Output
import Stencil.Proofs.Files.Paths
import Stencil.Proofs.Files.Walk
import Stencil.Proofs.Json.Tokens
import Stencil.Proofs.Json.Values
import Stencil.Proofs.Machine.Items
import Stencil.Proofs.Markup.Cuts
import Stencil.Proofs.Markup.Lossless
import Stencil.Proofs.Markup.Pieces
import Stencil.Proofs.Markup.Segments
import Stencil.Proofs.Member.Conversion
import Stencil.Proofs.Member.Layers
import Stencil.Proofs.Number.Rounding
import Stencil.Proofs.Site.AnyOrder
import Stencil.Proofs.Site.Engines
import Stencil.Proofs.Site.History
import Stencil.Proofs.Site.Rendering
import Stencil.Proofs.Site.Verbatim
import Stencil.Proofs.Text.Decode
import Stencil.Proofs.Text.Lossy
import Stencil.Proofs.Text.Positions
import Stencil.Proofs.Text.Reference
import Stencil.Proofs.Text.Search
import Stencil.Proofs.Token.Cuts
import Stencil.Proofs.Token.Ending
import Stencil.Proofs.Token.Requests
import Stencil.Proofs.Token.Stream
import Stencil.Proofs.Token.Tiling
import Stencil.Proofs.Tree.Editing
import Stencil.Proofs.Tree.Grammar
import Stencil.Proofs.Tree.Layout
import Stencil.Proofs.Tree.Locations
import Stencil.Proofs.Tree.Reading
import Stencil.Proofs.Tree.RoundTrip
import Stencil.Proofs.Tree.Tour
import Stencil.Proofs.Tree.Walks
import Stencil.Proofs.Value.Canonical
import Stencil.Proofs.Value.Content
import Stencil.Proofs.Value.Dict
import Stencil.Proofs.Value.Equality
import Stencil.Settings
import Stencil.Site.Basic
import Stencil.Site.Command
import Stencil.Text.Bytes
import Stencil.Text.Quoted
import Stencil.Text.Reading
import Stencil.Text.Reference
import Stencil.Token.Action
import Stencil.Token.Cursor
import Stencil.Token.Lexer
import Stencil.Token.Markup
import Stencil.Toml.Reader
import Stencil.Toml.Scalar
import Stencil.Toml.Table
import Stencil.Toml.Text
import Stencil.Tree.Node
import Stencil.Tree.Reader
import Stencil.Tree.Walk
import Stencil.Value.Basic
import Stencil.Value.Content
import Stencil.Value.Dict
import Stencil.Value.Text
