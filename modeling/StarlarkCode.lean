import StarlarkCode.Arguments
import StarlarkCode.Binary64
import StarlarkCode.Binary64.Literal
import StarlarkCode.Decimal
import StarlarkCode.Expr
import StarlarkCode.Expr.Equality
import StarlarkCode.File
import StarlarkCode.Format
import StarlarkCode.Kind
import StarlarkCode.Layout
import StarlarkCode.Layout.Error
import StarlarkCode.Layout.Expr
import StarlarkCode.Layout.Fit
import StarlarkCode.Layout.Node
import StarlarkCode.Layout.Spacing
import StarlarkCode.Node
import StarlarkCode.Node.Visits
import StarlarkCode.Output.Buffer
import StarlarkCode.Output.Expr
import StarlarkCode.Output.IndentTable
import StarlarkCode.Output.Node
import StarlarkCode.Output.Printer
import StarlarkCode.Output.TextSink
import StarlarkCode.Statement
import StarlarkCode.Text.Blank
import StarlarkCode.Text.Digits
import StarlarkCode.Text.Lines
import StarlarkCode.Text.Suffix
import StarlarkCode.Text.Utf8
import StarlarkCode.Wire.Decode
import StarlarkCode.Wire.Decoder
import StarlarkCode.Wire.Encode
import StarlarkCode.Proofs.Parts
import StarlarkCode.Proofs.Visiting
import StarlarkCode.Proofs.Faults
import StarlarkCode.Proofs.Wire.Primitives
import StarlarkCode.Proofs.Wire.RoundTrip
import StarlarkCode.Proofs.Brackets
import StarlarkCode.Proofs.Wire.Canonical
import StarlarkCode.Proofs.Content
import StarlarkCode.Proofs.Outline.Nodes
import StarlarkCode.Proofs.Reading.Unique
import StarlarkCode.Proofs.Accumulation
import StarlarkCode.Proofs.Printing
import StarlarkCode.Proofs.Wire.Prefix
import StarlarkCode.Proofs.Files
import StarlarkCode.Proofs.Files.Spacing
import StarlarkCode.Proofs.Outline.LineCount
import StarlarkCode.Proofs.Files.LineEnds
import StarlarkCode.Proofs.LineModes
import StarlarkCode.Proofs.Reading.Receivers
import StarlarkCode.Proofs.Accumulation.Calls
import StarlarkCode.Proofs.Equality
import StarlarkCode.Proofs.Kinds
import StarlarkCode.Proofs.Files.Appending
import StarlarkCode.Proofs.Verbatim
import StarlarkCode.Proofs.Lines
import StarlarkCode.Proofs.Wire.Capacity
import StarlarkCode.Proofs.ModuleNames
import StarlarkCode.Proofs.Floats.Literals
import StarlarkCode.Proofs.Indents
