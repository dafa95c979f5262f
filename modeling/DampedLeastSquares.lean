import DampedLeastSquares.Amount
import DampedLeastSquares.Bundle.Adjustment
import DampedLeastSquares.Bundle.Basic
import DampedLeastSquares.Bundle.Labelled
import DampedLeastSquares.Bundle.Parameters
import DampedLeastSquares.Bundle.Reprojection
import DampedLeastSquares.Bundle.Sparsity
import DampedLeastSquares.Config.Basic
import DampedLeastSquares.Config.File
import DampedLeastSquares.Config.Number
import DampedLeastSquares.Config.Reading
import DampedLeastSquares.Config.Writing
import DampedLeastSquares.Decimal.Digits
import DampedLeastSquares.Decimal.Exact
import DampedLeastSquares.Decimal.Layout
import DampedLeastSquares.Decimal.Reading
import DampedLeastSquares.Decimal.VectorText
import DampedLeastSquares.Fault
import DampedLeastSquares.Geometry.Lens
import DampedLeastSquares.Geometry.Orthonormal
import DampedLeastSquares.Geometry.Pose
import DampedLeastSquares.Geometry.Rotation
import DampedLeastSquares.Geometry.Space
import DampedLeastSquares.Jacobian.Basic
import DampedLeastSquares.Jacobian.Slice
import DampedLeastSquares.Linear.Basic
import DampedLeastSquares.Linear.System
import DampedLeastSquares.Point
import DampedLeastSquares.Problem.Basic
import DampedLeastSquares.Problem.FlatState
import DampedLeastSquares.Problem.FunctionModel
import DampedLeastSquares.Proofs.Bundle.Adjusting
import DampedLeastSquares.Proofs.Bundle.AdjustmentSession
import DampedLeastSquares.Proofs.Bundle.Answering
import DampedLeastSquares.Proofs.Bundle.Batches
import DampedLeastSquares.Proofs.Bundle.Deviation
import DampedLeastSquares.Proofs.Bundle.HeldCamera
import DampedLeastSquares.Proofs.Bundle.Memory
import DampedLeastSquares.Proofs.Bundle.Parameters
import DampedLeastSquares.Proofs.Bundle.PointColumns
import DampedLeastSquares.Proofs.Bundle.Projection
import DampedLeastSquares.Proofs.Bundle.RoundTrip
import DampedLeastSquares.Proofs.Bundle.SameResiduals
import DampedLeastSquares.Proofs.Bundle.Sparsity
import DampedLeastSquares.Proofs.Bundle.Store
import DampedLeastSquares.Proofs.Bundle.WordColumns
import DampedLeastSquares.Proofs.Config.File
import DampedLeastSquares.Proofs.Config.Format
import DampedLeastSquares.Proofs.Config.Keys
import DampedLeastSquares.Proofs.Config.Magnitudes
import DampedLeastSquares.Proofs.Config.Refusals
import DampedLeastSquares.Proofs.Config.Saving
import DampedLeastSquares.Proofs.Config.Unbounded
import DampedLeastSquares.Proofs.Decimal.Fields
import DampedLeastSquares.Proofs.Decimal.Largest
import DampedLeastSquares.Proofs.Decimal.Nearest
import DampedLeastSquares.Proofs.Decimal.Numerals
import DampedLeastSquares.Proofs.Decimal.Shortest
import DampedLeastSquares.Proofs.Geometry.Orthonormal
import DampedLeastSquares.Proofs.Geometry.Rotation
import DampedLeastSquares.Proofs.Jacobian.Columns
import DampedLeastSquares.Proofs.Jacobian.Distribution
import DampedLeastSquares.Proofs.Jacobian.Pattern
import DampedLeastSquares.Proofs.Jacobian.Schedule
import DampedLeastSquares.Proofs.Jacobian.Sequential
import DampedLeastSquares.Proofs.Jacobian.Slices
import DampedLeastSquares.Proofs.Linear.Elimination
import DampedLeastSquares.Proofs.Linear.Gram
import DampedLeastSquares.Proofs.Linear.Shapes
import DampedLeastSquares.Proofs.Linear.Solver
import DampedLeastSquares.Proofs.Problem.ActiveVariables
import DampedLeastSquares.Proofs.Problem.Affine
import DampedLeastSquares.Proofs.Problem.Descent
import DampedLeastSquares.Proofs.Problem.LeastSquares
import DampedLeastSquares.Proofs.Problem.Session
import DampedLeastSquares.Proofs.Problem.SolutionSize
import DampedLeastSquares.Proofs.Scalar.Exact
import DampedLeastSquares.Proofs.Scalar.Order
import DampedLeastSquares.Proofs.Scalar.Rounding
import DampedLeastSquares.Proofs.Solve.Best
import DampedLeastSquares.Proofs.Solve.Budget
import DampedLeastSquares.Proofs.Solve.Coherence
import DampedLeastSquares.Proofs.Solve.Commit
import DampedLeastSquares.Proofs.Solve.Damping
import DampedLeastSquares.Proofs.Solve.Faultless
import DampedLeastSquares.Proofs.Solve.IllPosed
import DampedLeastSquares.Proofs.Solve.Inactive
import DampedLeastSquares.Proofs.Solve.Limits
import DampedLeastSquares.Proofs.Solve.Overflow
import DampedLeastSquares.Proofs.Solve.Purity
import DampedLeastSquares.Proofs.Solve.Relisting
import DampedLeastSquares.Proofs.Solve.Reordering
import DampedLeastSquares.Proofs.Solve.Reports
import DampedLeastSquares.Proofs.Solve.Run
import DampedLeastSquares.Proofs.Solve.Scaling
import DampedLeastSquares.Proofs.Solve.Step
import DampedLeastSquares.Proofs.Solve.Stopping
import DampedLeastSquares.Proofs.Solve.Table
import DampedLeastSquares.Proofs.Solve.Units
import DampedLeastSquares.Proofs.Solve.WorkerCount
import DampedLeastSquares.Proofs.Text.Encoding
import DampedLeastSquares.Proofs.Toml.Documents
import DampedLeastSquares.Proofs.Toml.Literals
import DampedLeastSquares.Proofs.Toml.Values
import DampedLeastSquares.Scalar
import DampedLeastSquares.Solve.Basic
import DampedLeastSquares.Solve.Iteration
import DampedLeastSquares.Solve.Report
import DampedLeastSquares.Solve.System
import DampedLeastSquares.Solve.Trace
import DampedLeastSquares.Tensor
import DampedLeastSquares.Text.Numeral
import DampedLeastSquares.Text.Printable
import DampedLeastSquares.Text.Quoted
import DampedLeastSquares.Text.Utf8
import DampedLeastSquares.Toml.Document
import DampedLeastSquares.Toml.Literal
import DampedLeastSquares.Toml.Parser
import DampedLeastSquares.Toml.Quoted
import DampedLeastSquares.Toml.Value
import DampedLeastSquares.Word
