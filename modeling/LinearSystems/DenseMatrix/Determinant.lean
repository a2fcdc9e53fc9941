import LinearSystems.DenseMatrix.Elimination
import LinearSystems.DenseMatrix.Operations

/-!
# Determinants, inverses and Cramer's rule

`determinant` multiplies the diagonal of the row echelon form and negates the product if an odd
number of rows were exchanged. `determinantByCofactors` expands along the first row, in factorial
time. The two share no step, and neither asserts that scalars which round give both the same
value. The determinant of the matrix without rows is one.

The adjugate is the transposed matrix of cofactors, the inverse is the adjugate divided by the
determinant, and Cramer's rule divides the determinants of the matrix with one column replaced.
A matrix whose determinant counts as zero is singular. Cramer's rule compares the dimensions
before it looks at the determinant; solving by the inverse compares them after the inversion.
-/

namespace LinearSystems.DenseMatrix

variable {K : Type} [Scalar K]

/-- The fault of a matrix that should have been square. -/
def notSquare (m : DenseMatrix K) : Fault :=
  .shape (.notSquare m.nrows m.ncols)

/-- The product of the entries on the main diagonal. -/
def diagonalProduct (m : DenseMatrix K) : Except Fault K :=
  (List.range m.nrows).foldlM (fun product x => return Scalar.mul product (← m.get x x)) Scalar.one

/-- The determinant, from the row echelon form. -/
def determinant (m : DenseMatrix K) : Traced K :=
  if m.isSquare then do
    let e ← m.eliminate
    let product ← e.matrix.diagonalProduct
    return if e.isOdd then Scalar.neg product else product
  else Traced.fail m.notSquare

/-- The expansion along the first row of a square matrix of the given size. Zero entries of the
row are skipped. -/
def expand : Nat → DenseMatrix K → Except Fault K
  | 0, _ => .ok Scalar.one
  | 1, m => m.get 0 0
  | 2, m => do
    let diagonal := Scalar.mul (← m.get 0 0) (← m.get 1 1)
    return Scalar.sub diagonal (Scalar.mul (← m.get 0 1) (← m.get 1 0))
  | size + 3, m =>
    (List.range m.ncols).foldlM
      (fun det j => do
        let e ← m.get 0 j
        if Scalar.isZero e then return det
        else
          let d ← expand (size + 2) (← m.minor 0 j)
          return if j % 2 = 0 then Scalar.addMul det e d else Scalar.subMul det e d)
      Scalar.zero

/-- The determinant, by expansion along the first row. -/
def determinantByCofactors (m : DenseMatrix K) : Except Fault K :=
  if m.isSquare then expand m.nrows m else .error m.notSquare

/-! ### Inverses and Cramer's rule -/

/-- The determinants of all minors. -/
def minorMatrix (m : DenseMatrix K) : Traced (DenseMatrix K) :=
  if m.isSquare then
    tabulateM m.nrows m.ncols fun i j => do (← m.minor i j).determinant
  else Traced.fail m.notSquare

/-- The transposed matrix of cofactors. -/
def adjugate (m : DenseMatrix K) : Traced (DenseMatrix K) := do
  (← m.minorMatrix).cofactor.transpose

/-- The inverse: the adjugate divided by the determinant. -/
def inverse (m : DenseMatrix K) : Traced (DenseMatrix K) := do
  let det ← m.determinant
  if Scalar.isZero det then Traced.fail (.shape .singular)
  else
    let adjugate ← m.adjugate
    return adjugate.scale (← Scalar.pivotInverse det)

/-- The solution of `m * x = b` by Cramer's rule. -/
def solveCramer (m : DenseMatrix K) (b : DenseVector K) : Traced (DenseVector K) := do
  let det ← m.determinant
  if b.dim ≠ m.nrows then Traced.fail (.columnMismatch m.nrows b.dim)
  else if Scalar.isZero det then Traced.fail (.shape .singular)
  else
    let factor ← Scalar.pivotInverse det
    DenseVector.mk <$> (List.range m.ncols).mapM fun i => do
      let d ← (← m.replaceCol i b).determinant
      return Scalar.mul d factor

/-- The solution of `m * x = b` as the product of the inverse and `b`. -/
def solveByInverse (m : DenseMatrix K) (b : DenseVector K) : Traced (DenseVector K) := do
  (← m.inverse).mulVec b

end LinearSystems.DenseMatrix
