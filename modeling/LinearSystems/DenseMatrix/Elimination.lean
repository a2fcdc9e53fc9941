import LinearSystems.DenseMatrix.Basic
import LinearSystems.Traced

/-!
# Gaussian elimination

`eliminate` brings a matrix into row echelon form. The columns are visited from left to right; the
pivot of a column is the first entry, at or below the current row, that does not count as zero.
Every row `k` below the pivot row `r` with a non-zero entry in the column `c` becomes
`row k - (m[k, c] / m[r, c]) * row r`, and its entry in the column is **written** as zero, whatever
the arithmetic would have left there. So the shape of the result never depends on cancellation.

`backSubstitute` turns an echelon form into the reduced one, from the last row upwards.

An `Elimination` records the number of pivots and the exchanges of rows, which decide the sign of
a determinant. Both passes divide only by entries that do not count as zero, and say so by
`Scalar.pivotQuotient` and `Scalar.pivotInverse`.

The row operations of which both passes are made subtract a multiple of one row from another, or
multiply a row by a scalar, on the columns from a given one on: an elimination knows what stands to
the left and writes it directly.
-/

namespace LinearSystems

/-! ### Row operations -/

namespace DenseMatrix

variable {K : Type}

/-- Apply a step for each column from `first` on, from left to right. -/
def forColumnsFrom (m : DenseMatrix K) (first : Nat)
    (step : DenseMatrix K → Nat → Except Fault (DenseMatrix K)) : Except Fault (DenseMatrix K) :=
  (List.range' first (m.ncols - first)).foldlM step m

/-- Exchange the entries of two rows in one column. -/
def swapEntries (i k : Nat) (m : DenseMatrix K) (l : Nat) : Except Fault (DenseMatrix K) := do
  let upper ← m.get i l
  let lower ← m.get k l
  let m ← m.set i l lower
  m.set k l upper

/-- Exchange two rows. -/
def swapRows (m : DenseMatrix K) (i k : Nat) : Except Fault (DenseMatrix K) :=
  if i = k then .ok m else m.forColumnsFrom 0 (swapEntries i k)

variable [Scalar K]

/-- Subtract `factor` times the entry of row `source` from that of row `target`. -/
def subtractEntry (target source : Nat) (factor : K) (m : DenseMatrix K) (l : Nat) :
    Except Fault (DenseMatrix K) := do
  let e ← m.get target l
  let s ← m.get source l
  m.set target l (Scalar.subMul e s factor)

/-- Subtract `factor` times row `source` from row `target`, from column `first` on. -/
def subtractMultiple (m : DenseMatrix K) (target source : Nat) (factor : K) (first : Nat) :
    Except Fault (DenseMatrix K) :=
  m.forColumnsFrom first (subtractEntry target source factor)

/-- Multiply an entry of row `i` by `factor`. -/
def scaleEntry (i : Nat) (factor : K) (m : DenseMatrix K) (l : Nat) :
    Except Fault (DenseMatrix K) := do
  let e ← m.get i l
  m.set i l (Scalar.mul e factor)

/-- Multiply row `i` by `factor`, from column `first` on. -/
def scaleRow (m : DenseMatrix K) (i : Nat) (factor : K) (first : Nat) :
    Except Fault (DenseMatrix K) :=
  m.forColumnsFrom first (scaleEntry i factor)

/-- Whether an entry does not count as zero. -/
def nonzeroAt (m : DenseMatrix K) (i j : Nat) : Except Fault Bool := do
  return !Scalar.isZero (← m.get i j)

/-- The first column in which row `i` has an entry that does not count as zero. -/
def leadingColumn (m : DenseMatrix K) (i : Nat) : Except Fault (Option Nat) :=
  findIndex (fun j => m.nonzeroAt i j) 0 m.ncols

end DenseMatrix

/-! ### Elimination -/

/-- An exchange of rows: the pivot of a column was fetched from a lower row. -/
structure RowSwap where
  col : Nat
  lower : Nat
  upper : Nat
  deriving DecidableEq, Repr

/-- A matrix in the course of an elimination. -/
structure Elimination (K : Type) where
  matrix : DenseMatrix K
  /-- The number of pivots found so far, which is also the next pivot row. -/
  rank : Nat
  /-- The exchanges of rows, oldest first. -/
  swaps : List RowSwap

namespace Elimination

variable {K : Type}

/-- The diagnostics of the exchanges of rows. -/
def diagnostics (e : Elimination K) : List Diagnostic :=
  e.swaps.map fun s => .rowSwap s.col s.lower s.upper

/-- Whether an odd number of exchanges was made. -/
def isOdd (e : Elimination K) : Bool :=
  e.swaps.length % 2 == 1

variable [Scalar K]

/-- The first row, from the next pivot row on, with a non-zero entry in the column. -/
def pivotRow (e : Elimination K) (col : Nat) : Except Fault (Option Nat) :=
  findIndex (fun k => e.matrix.nonzeroAt k col) e.rank (e.matrix.nrows - e.rank)

/-- Make row `k` the next pivot row. -/
def bringUp (e : Elimination K) (col k : Nat) : Except Fault (Elimination K) :=
  if k = e.rank then .ok e
  else do
    let matrix ← e.matrix.swapRows e.rank k
    return { e with matrix, swaps := e.swaps ++ [⟨col, k, e.rank⟩] }

/-- Clear the entry of row `k` in a column by a multiple of the pivot row. -/
def cancelBelow (pivot col : Nat) (m : DenseMatrix K) (k : Nat) :
    Except Fault (DenseMatrix K) := do
  let e ← m.get k col
  if Scalar.isZero e then return m
  else
    let s ← Scalar.pivotQuotient e (← m.get pivot col)
    let m ← m.set k col Scalar.zero
    m.subtractMultiple k pivot s (col + 1)

/-- Clear a column below the next pivot row, and count the pivot. -/
def clearBelow (e : Elimination K) (col : Nat) : Except Fault (Elimination K) := do
  let below := List.range' (e.rank + 1) (e.matrix.nrows - (e.rank + 1))
  let matrix ← below.foldlM (cancelBelow e.rank col) e.matrix
  return { e with matrix, rank := e.rank + 1 }

/-- Find the pivot of a column and clear the column below it. A column without a pivot is left
alone. -/
def step (e : Elimination K) (col : Nat) : Except Fault (Elimination K) := do
  match ← e.pivotRow col with
  | none => return e
  | some k => (← e.bringUp col k).clearBelow col

/-- Visit `count` columns from `col` on, as long as rows are left. -/
def sweep (e : Elimination K) (col : Nat) : Nat → Except Fault (Elimination K)
  | 0 => .ok e
  | count + 1 =>
    if e.matrix.nrows ≤ e.rank then .ok e
    else do (← e.step col).sweep (col + 1) count

/-- The elimination of a matrix. -/
def ofMatrix (m : DenseMatrix K) : Except Fault (Elimination K) :=
  sweep ⟨m, 0, []⟩ 0 m.ncols

end Elimination

namespace DenseMatrix

variable {K : Type} [Scalar K]

/-! ### Back-substitution -/

/-- Make the entry of row `i` in column `j` one by a multiple of the row. -/
def normalizeRow (m : DenseMatrix K) (i j : Nat) : Except Fault (DenseMatrix K) := do
  let pivot ← m.get i j
  if Scalar.isOne pivot then return m
  else
    let m ← m.scaleRow i (← Scalar.pivotInverse pivot) (j + 1)
    m.set i j Scalar.one

/-- Clear the entry of row `k` in column `j` by a multiple of row `i`. -/
def cancelAbove (i j : Nat) (m : DenseMatrix K) (k : Nat) : Except Fault (DenseMatrix K) := do
  let e ← m.get k j
  if Scalar.isZero e then return m
  else
    let m ← m.set k j Scalar.zero
    m.subtractMultiple k i e (j + 1)

/-- Normalize row `i` and clear the rows above it in its leading column. -/
def reduceRow (m : DenseMatrix K) (i : Nat) : Except Fault (DenseMatrix K) := do
  match ← m.leadingColumn i with
  | none => return m
  | some j => (List.range i).foldlM (cancelAbove i j) (← m.normalizeRow i j)

/-- Reduce the first `count` rows, from the last of them upwards. -/
def reduceRows (m : DenseMatrix K) : Nat → Except Fault (DenseMatrix K)
  | 0 => .ok m
  | count + 1 => do (← m.reduceRow count).reduceRows count

/-- Reduce a matrix in row echelon form. -/
def backSubstitute (m : DenseMatrix K) : Except Fault (DenseMatrix K) :=
  m.reduceRows m.nrows

/-! ### Echelon forms -/

/-- The elimination of a matrix, with its diagnostics. -/
def eliminate (m : DenseMatrix K) : Traced (Elimination K) := do
  let e ← Elimination.ofMatrix m
  Traced.reportAll e.diagnostics
  return e

/-- The reduced matrix and the rank. -/
def rowReduce (m : DenseMatrix K) : Traced (DenseMatrix K × Nat) := do
  let e ← m.eliminate
  return (← e.matrix.backSubstitute, e.rank)

/-- The row echelon form: the first non-zero entry of every row lies to the right of the one in
the row above, and zero rows come last. -/
def rowEchelonForm (m : DenseMatrix K) : Traced (DenseMatrix K) :=
  Elimination.matrix <$> m.eliminate

/-- The reduced row echelon form: moreover every pivot is one and alone in its column. -/
def reducedRowEchelonForm (m : DenseMatrix K) : Traced (DenseMatrix K) :=
  Prod.fst <$> m.rowReduce

/-- The number of pivots. -/
def rank (m : DenseMatrix K) : Traced Nat :=
  Elimination.rank <$> m.eliminate

/-- The columns of the pivots. -/
def pivotColumns (m : DenseMatrix K) : Traced (List Nat) := do
  let reduced ← m.rowEchelonForm
  return (reduced.rowChunks.take reduced.nrows).filterMap fun r =>
    r.findIdx? fun e => !Scalar.isZero e

/-! ### Recognizing the reduced form -/

/-- Whether a column has a non-zero entry outside row `i`. -/
def columnHasOther (m : DenseMatrix K) (i j : Nat) : Except Fault Bool :=
  Option.isSome <$> findIndex (fun k => if k = i then .ok false else m.nonzeroAt k j) 0 m.nrows

/-- Check `count` rows from row `i` on. A zero row may have been seen above, and `last` is the
leading column of the last non-zero row above. -/
def isReducedFrom (m : DenseMatrix K) (i : Nat) (zeroSeen : Bool) (last : Option Nat) :
    Nat → Except Fault Bool
  | 0 => .ok true
  | count + 1 => do
    match ← m.leadingColumn i with
    | none => m.isReducedFrom (i + 1) true last count
    | some j =>
      if zeroSeen || last.any (j ≤ ·) then return false
      else if !Scalar.isOne (← m.get i j) then return false
      else if ← m.columnHasOther i j then return false
      else m.isReducedFrom (i + 1) zeroSeen (some j) count

/-- Whether the matrix is in reduced row echelon form. -/
def isReducedRowEchelon (m : DenseMatrix K) : Except Fault Bool :=
  m.isReducedFrom 0 false none m.nrows

end DenseMatrix

end LinearSystems
