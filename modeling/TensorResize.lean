import TensorResize.Graph.Dot
import TensorResize.Resize.Lowering
import TensorResize.Text.Uppercase
import TensorResize.Proofs.Sequencing
import TensorResize.Proofs.Tags
import TensorResize.Proofs.Layout
import TensorResize.Proofs.Rounding
import TensorResize.Proofs.ExactArithmetic
import TensorResize.Proofs.Comparison
import TensorResize.Proofs.SampleRange
import TensorResize.Proofs.Tensor
import TensorResize.Proofs.Execution
import TensorResize.Proofs.Plan
import TensorResize.Proofs.Corners
import TensorResize.Proofs.Operands
import TensorResize.Proofs.Blend
import TensorResize.Proofs.Interpolation
import TensorResize.Proofs.NearestResize
import TensorResize.Proofs.GatherRange
import TensorResize.Proofs.Refusal
import TensorResize.Proofs.ResolutionRules
import TensorResize.Proofs.Growth
import TensorResize.Proofs.LoweredShapes
import TensorResize.Proofs.Steps
import TensorResize.Proofs.Sources
import TensorResize.Proofs.Emission
import TensorResize.Proofs.OutputGuard
import TensorResize.Proofs.CornerBlocks
import TensorResize.Proofs.Exactness
import TensorResize.Proofs.Aliases
import TensorResize.Proofs.ScaleCount
import TensorResize.Proofs.Strategy
import TensorResize.Proofs.Widening
import TensorResize.Proofs.RuntimeInputs
import TensorResize.Proofs.ScaleForms
import TensorResize.Proofs.OperatorTypes
import TensorResize.Proofs.Relocation
import TensorResize.Proofs.DotLabels
import TensorResize.Proofs.Dispatch
import TensorResize.Proofs.Enumeration
import TensorResize.Proofs.CornerOffsets
import TensorResize.Proofs.RegionArguments
import TensorResize.Proofs.SampleOrder
import TensorResize.Proofs.Weights
import TensorResize.Proofs.Replication
import TensorResize.Proofs.GivenLengths
import TensorResize.Proofs.UnchangedLengths
import TensorResize.Proofs.Additions
import TensorResize.Proofs.Folding
import TensorResize.Proofs.Slicing
import TensorResize.Proofs.LengthNames
