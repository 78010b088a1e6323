import WordLayout.BitPlan
import WordLayout.Command.Arguments
import WordLayout.Command.Run
import WordLayout.Command.Settings
import WordLayout.Command.Storage
import WordLayout.Command.Usage
import WordLayout.Coverage
import WordLayout.Coverage.Report
import WordLayout.Description.Basic
import WordLayout.Description.Decode
import WordLayout.Description.Decode.Basic
import WordLayout.Description.Decode.Merge
import WordLayout.Description.Error
import WordLayout.Description.Load
import WordLayout.Description.Placement
import WordLayout.Description.TypeParser
import WordLayout.Draft
import WordLayout.Host.Buffer
import WordLayout.Host.Error
import WordLayout.Host.Value
import WordLayout.Log
import WordLayout.Main
import WordLayout.Module
import WordLayout.Proofs.BitField
import WordLayout.Proofs.BitPlan
import WordLayout.Proofs.Coverage
import WordLayout.Proofs.Coverage.Modes
import WordLayout.Proofs.Coverage.Packing
import WordLayout.Proofs.Coverage.Partition
import WordLayout.Proofs.Coverage.Walk
import WordLayout.Proofs.Description.Automatic
import WordLayout.Proofs.Description.Explicit
import WordLayout.Proofs.Description.Location
import WordLayout.Proofs.Description.Placement
import WordLayout.Proofs.Draft
import WordLayout.Proofs.Draft.Build
import WordLayout.Proofs.Host.Address
import WordLayout.Proofs.Host.Buffer
import WordLayout.Proofs.Host.Canonical
import WordLayout.Proofs.Host.Commute
import WordLayout.Proofs.Host.Decode
import WordLayout.Proofs.Host.Encode
import WordLayout.Proofs.Host.FieldOrder
import WordLayout.Proofs.Host.Frame
import WordLayout.Proofs.Host.Memory
import WordLayout.Proofs.Host.Outcome
import WordLayout.Proofs.Host.RoundTrip
import WordLayout.Proofs.Host.Safety
import WordLayout.Proofs.Host.Stored
import WordLayout.Proofs.Host.Trace
import WordLayout.Proofs.Host.Typing
import WordLayout.Proofs.Host.Value
import WordLayout.Proofs.Sequence
import WordLayout.Proofs.Shader.Execution
import WordLayout.Proofs.Shader.Expressions
import WordLayout.Proofs.Shader.Hygiene
import WordLayout.Proofs.Shader.Identifiers
import WordLayout.Proofs.Shader.Inventory
import WordLayout.Proofs.Shader.Listing.Bodies
import WordLayout.Proofs.Shader.Listing.Calls
import WordLayout.Proofs.Shader.Listing.Programs
import WordLayout.Proofs.Shader.Listing.Reading
import WordLayout.Proofs.Shader.Listing.Replacement
import WordLayout.Proofs.Shader.Listing.Run
import WordLayout.Proofs.Shader.Listing.Simulation
import WordLayout.Proofs.Shader.Listing.Spelling
import WordLayout.Proofs.Shader.Listing.Statements
import WordLayout.Proofs.Shader.Listing.Syntax
import WordLayout.Proofs.Shader.Listing.Texts
import WordLayout.Proofs.Shader.Loads
import WordLayout.Proofs.Shader.Names
import WordLayout.Proofs.Shader.Order
import WordLayout.Proofs.Shader.Readers
import WordLayout.Proofs.Shader.Rendering
import WordLayout.Proofs.Shader.Reserved
import WordLayout.Proofs.Shader.Value
import WordLayout.Proofs.Shader.Widen
import WordLayout.Proofs.Shader.Writers
import WordLayout.Proofs.TypeExpr
import WordLayout.Proofs.Validation.Acceptance
import WordLayout.Proofs.Validation.Bounds
import WordLayout.Proofs.Validation.Checks
import WordLayout.Proofs.Validation.FieldOrder
import WordLayout.Proofs.Validation.Order
import WordLayout.Proofs.Validation.Search
import WordLayout.Proofs.Validation.Subject
import WordLayout.Proofs.Validation.WellFormed
import WordLayout.Proofs.Word
import WordLayout.Scalar
import WordLayout.Shader.Accessors
import WordLayout.Shader.Code
import WordLayout.Shader.Dialect
import WordLayout.Shader.Emit
import WordLayout.Shader.Failure
import WordLayout.Shader.Language
import WordLayout.Shader.Names
import WordLayout.Shader.Program
import WordLayout.Shader.Reserved
import WordLayout.Terminal.CharClass
import WordLayout.Terminal.Cluster
import WordLayout.Terminal.Control
import WordLayout.Terminal.Sequence
import WordLayout.Terminal.Style
import WordLayout.Terminal.Table
import WordLayout.Terminal.Wrap
import WordLayout.Text.Base64
import WordLayout.Text.Blank
import WordLayout.Text.Bytes
import WordLayout.Text.Case
import WordLayout.Text.Identifier
import WordLayout.Text.Number
import WordLayout.Text.Printable
import WordLayout.Text.Quoted
import WordLayout.Text.Ranges
import WordLayout.TypeExpr
import WordLayout.Validation
import WordLayout.Validation.Error
import WordLayout.Word
import WordLayout.Yaml.Char
import WordLayout.Yaml.Comment
import WordLayout.Yaml.Cursor
import WordLayout.Yaml.Error
import WordLayout.Yaml.Input
import WordLayout.Yaml.Lexeme.Block
import WordLayout.Yaml.Lexeme.Directive
import WordLayout.Yaml.Lexeme.Gap
import WordLayout.Yaml.Lexeme.Plain
import WordLayout.Yaml.Lexeme.Quoted
import WordLayout.Yaml.Lexeme.Tag
import WordLayout.Yaml.Node
import WordLayout.Yaml.Reader
import WordLayout.Yaml.Scalar
import WordLayout.Yaml.Timestamp
import WordLayout.Yaml.Token
import WordLayout.Yaml.TokenStream
import WordLayout.Yaml.TokenStream.Basic
import WordLayout.Yaml.TokenStream.Comments
import WordLayout.Yaml.TokenStream.Fetch
