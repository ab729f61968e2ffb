import TypedJson.Bootstrap
import TypedJson.Check
import TypedJson.Codec
import TypedJson.Command
import TypedJson.Command.Arguments
import TypedJson.Command.Documents
import TypedJson.Command.Run
import TypedJson.Entries
import TypedJson.Env
import TypedJson.Failure
import TypedJson.Files
import TypedJson.Files.Node
import TypedJson.Files.Path
import TypedJson.Glob
import TypedJson.Main
import TypedJson.Number
import TypedJson.Number.Binary64
import TypedJson.Number.Decimal
import TypedJson.Pointer
import TypedJson.Proofs.Bootstrap.Agreement
import TypedJson.Proofs.Bootstrap.Depth
import TypedJson.Proofs.Bootstrap.Described
import TypedJson.Proofs.Bootstrap.Documents
import TypedJson.Proofs.Check.Conformance
import TypedJson.Proofs.Check.Levels
import TypedJson.Proofs.Check.Settling
import TypedJson.Proofs.Check.Threshold
import TypedJson.Proofs.Codec
import TypedJson.Proofs.Entries
import TypedJson.Proofs.Number.Decimal
import TypedJson.Proofs.Number.Rounding
import TypedJson.Proofs.Outcome
import TypedJson.Proofs.Reader.Container
import TypedJson.Proofs.Reader.Number
import TypedJson.Proofs.Reader.Quoted
import TypedJson.Proofs.Reader.Value
import TypedJson.Proofs.Schema
import TypedJson.Proofs.Type
import TypedJson.Proofs.Type.Parts
import TypedJson.Proofs.Type.Wire
import TypedJson.Proofs.Value
import TypedJson.Reader.Container
import TypedJson.Reader.Fault
import TypedJson.Reader.Scalar
import TypedJson.Reader.Schema
import TypedJson.Reader.Skip
import TypedJson.Reader.Term
import TypedJson.Reader.Value
import TypedJson.Schema
import TypedJson.Text.Invisible
import TypedJson.Text.Lines
import TypedJson.Text.Position
import TypedJson.Text.Quoted
import TypedJson.Type
import TypedJson.Type.Wire
import TypedJson.Value
import TypedJson.Value.Printer
import TypedJson.Proofs.Bootstrap.Data
import TypedJson.Proofs.Bootstrap.Guard
import TypedJson.Proofs.Check.Productive
import TypedJson.Proofs.Check.Lexical
import TypedJson.Proofs.Check.FailureTree
import TypedJson.Proofs.Check.Origin
import TypedJson.Proofs.Check.Reordering
import TypedJson.Proofs.Failure
import TypedJson.Proofs.Value.Reordered
import TypedJson.Proofs.Check.Flattening
import TypedJson.Proofs.Check.Notes
import TypedJson.Proofs.Number.Comparison
import TypedJson.Proofs.Value.Comparison
import TypedJson.Proofs.Check.Literals
import TypedJson.Proofs.Files
import TypedJson.Proofs.Command.Output
import TypedJson.Proofs.Command.Encode
import TypedJson.Proofs.Check.LeftRecursion
import TypedJson.Proofs.Check.LetScopes
import TypedJson.Proofs.Bootstrap.Stability
import TypedJson.Proofs.Failure.Wire
import TypedJson.Proofs.Text.Lines
import TypedJson.Proofs.Value.Characters
import TypedJson.Proofs.Failure.Rendering
import TypedJson.Proofs.Reader.Readings
import TypedJson.Proofs.Reader.Skip
import TypedJson.Proofs.Reader.Agreement
import TypedJson.Proofs.Command.Lines
import TypedJson.Proofs.Env
import TypedJson.Proofs.Command.Selection
import TypedJson.Proofs.Command.Loading
import TypedJson.Proofs.Command.Batch
import TypedJson.Proofs.Command.Failing
