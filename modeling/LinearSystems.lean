import LinearSystems.Fault
import LinearSystems.Traced
import LinearSystems.Decimal
import LinearSystems.Text.Options
import LinearSystems.Scalar
import LinearSystems.Rational
import LinearSystems.Binary.Basic
import LinearSystems.Binary.Text
import LinearSystems.DenseVector
import LinearSystems.DenseMatrix.Basic
import LinearSystems.DenseMatrix.Operations
import LinearSystems.DenseMatrix.Elimination
import LinearSystems.DenseMatrix.Determinant
import LinearSystems.Flat.Basic
import LinearSystems.LinearSystem.LinearForm
import LinearSystems.LinearSystem.Solution
import LinearSystems.Flat.Intersection
import LinearSystems.Text.Layout
import LinearSystems.Proofs.Outcome
import LinearSystems.Proofs.DenseMatrix.Grid
import LinearSystems.Proofs.DenseMatrix.RowOperations
import LinearSystems.Proofs.Elimination.Sweep
import LinearSystems.Proofs.Elimination.BackSubstitution
import LinearSystems.Proofs.Elimination.Staircase
import LinearSystems.Proofs.Elimination.ReducedStaircase
import LinearSystems.Proofs.Elimination.FixedPoints
import LinearSystems.Proofs.Rational.Scalar
import LinearSystems.Proofs.Rational.RowEquivalence
import LinearSystems.Proofs.Rational.ReducedForm
import LinearSystems.Proofs.DenseVector.Tabulate
import LinearSystems.Proofs.DenseMatrix.Layout
import LinearSystems.Proofs.DenseMatrix.Cofactors
import LinearSystems.Proofs.DenseMatrix.Determinants
import LinearSystems.Proofs.Rational.Products
import LinearSystems.Proofs.Rational.CanonicalForm
import LinearSystems.Proofs.Rational.Determinant
import LinearSystems.Proofs.Binary.Scalar
import LinearSystems.Proofs.Elimination.EchelonForm
import LinearSystems.Proofs.Elimination.LeftBlock
import LinearSystems.Proofs.LinearSystem.Inspection
import LinearSystems.Proofs.LinearSystem.Resolution
import LinearSystems.Proofs.Elimination.FreeColumns
import LinearSystems.Proofs.Flat.Tabulate
import LinearSystems.Proofs.Rational.Flats
import LinearSystems.Proofs.Rational.LinearForms
import LinearSystems.Proofs.Rational.Resolution
import LinearSystems.Proofs.Rational.Solutions
import LinearSystems.Proofs.Rational.Solve
import LinearSystems.Proofs.Rational.Intersection
import LinearSystems.Proofs.Rational.Adjugate
import LinearSystems.Proofs.Rational.Cramer
import LinearSystems.Proofs.Binary.SingularMatrices
import LinearSystems.Proofs.Rational.Rank
import LinearSystems.Proofs.Rational.SquareRoots
import LinearSystems.Proofs.Rational.Parallel
import LinearSystems.Proofs.Rational.Combinations
import LinearSystems.Proofs.Rational.Independence
import LinearSystems.Proofs.Rational.IntersectionDimension
import LinearSystems.Proofs.Rational.Singularity
import LinearSystems.Proofs.Rational.Multiplicativity
import LinearSystems.Proofs.Binary.Order
import LinearSystems.Proofs.Binary.Fields
import LinearSystems.Proofs.Binary.Hashing
import LinearSystems.Proofs.Binary.Rounding
import LinearSystems.Proofs.Binary.Value
import LinearSystems.Proofs.Binary.Significand
import LinearSystems.Proofs.Binary.Arithmetic
import LinearSystems.Proofs.LinearSystem.FreeUnknowns
import LinearSystems.Proofs.LinearSystem.GeneralCase
import LinearSystems.Proofs.LinearSystem.TermOrder
import LinearSystems.Proofs.LinearSystem.Consistency
import LinearSystems.Proofs.Rational.CanonicalSolution
import LinearSystems.Proofs.Flat.Operations
import LinearSystems.Proofs.Flat.Reachable
import LinearSystems.Proofs.DenseMatrix.Outcomes
import LinearSystems.Proofs.DenseMatrix.Shapes
import LinearSystems.Proofs.DenseMatrix.Positions
import LinearSystems.Proofs.DenseMatrix.Reassembly
import LinearSystems.Proofs.DenseMatrix.Reachable
import LinearSystems.Proofs.Rational.Spans
import LinearSystems.Proofs.Rational.RowAndColumnSpaces
import LinearSystems.Proofs.Rational.Differences
import LinearSystems.Proofs.Rational.Algebra
import LinearSystems.Proofs.Binary.ReducedForms
import LinearSystems.Proofs.Text.Reading
import LinearSystems.Proofs.Text.Entries
import LinearSystems.Proofs.Text.Solutions
import LinearSystems.Proofs.Text.Matrices
import LinearSystems.Proofs.Text.Alignment
