import LinearSystems.DenseMatrix.Basic

/-!
# Operations on matrices

Matrices are taken apart and put together by minors, replaced rows and columns, splits between two
columns, and appended columns. All of these work on the row-major storage: a minor keeps the
positions outside one row and one column, a split cuts every stored row at the same place. Only an
appended column can be one too many: columns are counted up to `columnLimit`.

Sums and differences are entrywise. In a product each entry is a sum of products that starts at
zero and runs along the row and the column.
-/

namespace LinearSystems.DenseMatrix

variable {K : Type}

/-- The matrix without one row and one column. -/
def minor (m : DenseMatrix K) (row col : Nat) : Except Fault (DenseMatrix K) :=
  if row < m.nrows ∧ col < m.ncols then
    let kept := m.entries.zipIdx.filter fun (_, p) => p / m.ncols != row && p % m.ncols != col
    .ok ⟨m.nrows - 1, m.ncols - 1, kept.map Prod.fst⟩
  else .error (.breach (.minorOutOfRange row col m.nrows m.ncols))

/-- The matrix with row `i` replaced. -/
def replaceRow (m : DenseMatrix K) (i : Nat) (v : DenseVector K) :
    Except Fault (DenseMatrix K) :=
  if v.dim = m.ncols then v.entries.zipIdx.foldlM (fun m (e, j) => m.set i j e) m
  else .error (.shape (.dimensionMismatch (1, m.ncols) (1, v.dim)))

/-- The matrix with column `j` replaced. -/
def replaceCol (m : DenseMatrix K) (j : Nat) (v : DenseVector K) :
    Except Fault (DenseMatrix K) :=
  if v.dim = m.nrows then v.entries.zipIdx.foldlM (fun m (e, i) => m.set i j e) m
  else .error (.columnMismatch m.nrows v.dim)

/-- Cut a row into its first `col` entries and the others. -/
def splitRow (col : Nat) (r : List K) : Except Fault (List K × List K) :=
  if col ≤ r.length then .ok (r.splitAt col) else .error (.breach .positionOutOfRange)

/-- The columns before `col`, and those from `col` on. -/
def splitAtCol (m : DenseMatrix K) (col : Nat) :
    Except Fault (DenseMatrix K × DenseMatrix K) :=
  if col ≤ m.ncols then do
    let halves ← (m.rowChunks.take m.nrows).mapM (splitRow col)
    return (⟨m.nrows, col, (halves.flatMap Prod.fst).toArray⟩,
      ⟨m.nrows, m.ncols - col, (halves.flatMap Prod.snd).toArray⟩)
  else .error (.breach (.columnOutOfRange col))

/-- The largest number of columns, which are counted in a 32-bit word. -/
def columnLimit : Nat := 4294967295

/-- The matrix with a vector appended as its last column. A matrix without rows stores nothing, so
it may have `columnLimit` columns, and then there is none after the last. With rows it would store
an entry for each of the columns, and the size of a storage is not bounded here. -/
def augment (m : DenseMatrix K) (b : DenseVector K) : Except Fault (DenseMatrix K) :=
  if b.dim = m.nrows then
    if m.nrows = 0 ∧ columnLimit ≤ m.ncols then .error (.breach (.columnOutOfRange m.ncols))
    else do
      let rows ← b.entries.zipIdx.mapM fun (e, i) => return (← m.row i) ++ [e]
      return ⟨m.nrows, m.ncols + 1, rows.flatten.toArray⟩
  else .error (.columnMismatch m.nrows b.dim)

/-! ### Arithmetic -/

variable [Scalar K]

/-- Every entry negated. -/
def neg (m : DenseMatrix K) : DenseMatrix K :=
  { m with entries := m.entries.map Scalar.neg }

/-- Every entry multiplied by a scalar. -/
def scale (m : DenseMatrix K) (e : K) : DenseMatrix K :=
  { m with entries := m.entries.map fun x => Scalar.mul x e }

/-- The entries whose row and column add up to an odd number, negated. -/
def cofactor (m : DenseMatrix K) : DenseMatrix K :=
  { m with
    entries := m.entries.mapIdx fun p e =>
      if (p / m.ncols + p % m.ncols) % 2 = 1 then Scalar.neg e else e }

/-- The entrywise sum. -/
def add (m n : DenseMatrix K) : Except Fault (DenseMatrix K) :=
  if m.shape = n.shape then
    .ok { m with entries := Array.zipWith Scalar.add m.entries n.entries }
  else .error (.breach (.matrixSum m.shape n.shape))

/-- The entrywise difference. -/
def sub (m n : DenseMatrix K) : Except Fault (DenseMatrix K) :=
  if m.shape = n.shape then
    .ok { m with entries := Array.zipWith Scalar.sub m.entries n.entries }
  else .error (.breach (.matrixDifference m.shape n.shape))

/-- The product of row `i` of `m` and column `j` of `n`. -/
def rowTimesCol (m n : DenseMatrix K) (i j : Nat) : Except Fault K :=
  (List.range m.ncols).foldlM (fun sum k => return Scalar.addMul sum (← m.get i k) (← n.get k j))
    Scalar.zero

/-- The matrix product. -/
def mul (m n : DenseMatrix K) : Except Fault (DenseMatrix K) :=
  if m.ncols = n.nrows then tabulateM m.nrows n.ncols (rowTimesCol m n)
  else .error (.breach (.matrixProduct m.shape n.shape))

/-- The product of a matrix and a vector. -/
def mulVec (m : DenseMatrix K) (x : DenseVector K) : Except Fault (DenseVector K) :=
  if x.dim = m.ncols then
    DenseVector.mk <$> (List.range m.nrows).mapM fun i =>
      return DenseVector.sumOfProducts (← m.row i) x.entries
  else .error (.columnMismatch m.ncols x.dim)

end LinearSystems.DenseMatrix
