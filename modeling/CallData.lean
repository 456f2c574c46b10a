import CallData.Argument.Native
import CallData.Call
import CallData.Native.Json
import CallData.Bytes.Slice
import CallData.Proofs.Encoding
import CallData.Proofs.Reading
import CallData.Proofs.Sameness
import CallData.Proofs.Conformance
import CallData.Proofs.Scalar
import CallData.Proofs.Locality
import CallData.Proofs.Value.Nested
import CallData.Proofs.Value.Top
import CallData.Proofs.Argument.Tree
import CallData.Proofs.Argument.Flat
import CallData.Proofs.Argument.Order
import CallData.Proofs.Argument.Conformance
import CallData.Proofs.Argument.Reading
import CallData.Proofs.Argument.Restores
import CallData.Proofs.Argument.RoundTrip
import CallData.Proofs.Value.Locality
import CallData.Proofs.Value.Canonical
import CallData.Proofs.Argument.InPlace
import CallData.Proofs.Text.Framing
import CallData.Proofs.Argument.NormalForm
import CallData.Proofs.Argument.TextRoundTrip
import CallData.Proofs.Value.Filling
import CallData.Proofs.Value.ViaNative
import CallData.Proofs.Value.NativeRoundTrip
import CallData.Proofs.Argument.Filling
import CallData.Proofs.Argument.NativeRoundTrip
import CallData.Proofs.History
import CallData.Proofs.Argument.Grouping
import CallData.Proofs.Text.Cutting
import CallData.Proofs.Text.Parsing
import CallData.Proofs.FixedInt
import CallData.Proofs.Value.Variant
import CallData.Proofs.Value.Integer
import CallData.Proofs.Uniformity
import CallData.Proofs.Value.Sequence
import CallData.Proofs.Argument.Placement
import CallData.Proofs.Argument.Stages
import CallData.Proofs.Value.NativeForms
import CallData.Proofs.Argument.LeftOut
import CallData.Proofs.Text.Decimal
import CallData.Proofs.Value.NativeBytes
import CallData.Proofs.Decimal.Arithmetic
import CallData.Proofs.Value.Amount
import CallData.Proofs.Parts
import CallData.Proofs.Slice
import CallData.Proofs.Native.Json
import CallData.Proofs.Text.HexForm
