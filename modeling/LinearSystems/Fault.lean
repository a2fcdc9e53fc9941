/-!
# Faults

A computation on vectors and matrices stops early for one of two kinds of cause. A `ShapeError`
is an answer that a caller must expect: the shapes of the operands do not fit, or the matrix is
singular. A `Breach` is a precondition that the caller broke: a position outside the storage, a
zero divisor, an empty range, a text beyond the limits of what can be laid out.

`ShapeError.message` and `Breach.message?` give the wording. A breach that only reports a broken
bound has no text of its own.
-/

namespace LinearSystems

/-- The causes that a caller must expect. Shapes are pairs `(rows, columns)`. -/
inductive ShapeError where
  /-- The shapes of the operands do not fit. -/
  | dimensionMismatch (expected found : Nat × Nat)
  /-- The operation is defined for square matrices only. -/
  | notSquare (nrows ncols : Nat)
  /-- The determinant is zero. -/
  | singular
  /-- Rows of different lengths do not form a matrix. -/
  | notRectangular
  /-- The number of entries is not the product of the dimensions. -/
  | invalidLength (length nrows ncols : Nat)
  /-- A system needs at least the column of its right-hand side. -/
  | noColumns
  deriving DecidableEq, Repr

/-- The preconditions that a caller can break. -/
inductive Breach where
  /-- A unit vector along an axis that the space does not have. -/
  | axisOutOfRange (axis dim : Nat)
  /-- A scalar product of vectors of different dimensions. -/
  | unequalDimensions (left right : Nat)
  /-- A sum of vectors of different dimensions. -/
  | vectorSum (left right : Nat)
  /-- A difference of vectors of different dimensions. -/
  | vectorDifference (left right : Nat)
  /-- A sum of matrices of different shapes. -/
  | matrixSum (left right : Nat × Nat)
  /-- A difference of matrices of different shapes. -/
  | matrixDifference (left right : Nat × Nat)
  /-- A product of matrices whose inner dimensions differ. -/
  | matrixProduct (left right : Nat × Nat)
  /-- A minor at a position that the matrix does not have. -/
  | minorOutOfRange (row col nrows ncols : Nat)
  /-- A split behind the last column, or a column behind the last one that can be counted. -/
  | columnOutOfRange (col : Nat)
  /-- A power whose exponent exceeds the limit of the field. -/
  | exponentTooLarge (exponent : Nat)
  /-- A position outside the stored entries. -/
  | positionOutOfRange
  /-- A quotient, a reciprocal or a coordinate with divisor zero. -/
  | zeroDivisor
  /-- A draw from a range without integers. -/
  | emptyRange
  /-- A text with more digits behind the point than a layout allows. -/
  | precisionTooLarge (places : Nat)
  /-- A column of texts that is wider than a layout allows. -/
  | columnTooWide (width : Nat)
  deriving DecidableEq, Repr

/-- The cause for which a computation stopped. -/
inductive Fault where
  /-- An answer that a caller must expect. -/
  | shape (error : ShapeError)
  /-- A broken precondition. -/
  | breach (cause : Breach)
  deriving DecidableEq, Repr

/-- A shape, or any other pair of numbers, in parentheses. -/
def pairText (p : Nat × Nat) : String :=
  "(" ++ p.1.repr ++ "," ++ p.2.repr ++ ")"

/-- The wording of a shape error. -/
def ShapeError.message : ShapeError → String
  | dimensionMismatch expected found =>
    "Dimension mismatch: expected " ++ pairText expected ++ ", found " ++ pairText found
  | notSquare nrows ncols => "The matrix is not square: " ++ pairText (nrows, ncols)
  | singular => "The matrix is singular"
  | notRectangular => "Matrix is not rectangular"
  | invalidLength length nrows ncols =>
    "Data length does not match matrix dimensions: " ++ length.repr ++ " vs "
      ++ pairText (nrows, ncols)
  | noColumns => "The matrix has no columns"

/-- The wording of a breach, if it has one of its own. -/
def Breach.message? : Breach → Option String
  | axisOutOfRange axis dim =>
    some ("Axis " ++ axis.repr ++ " out of range for dimension " ++ dim.repr)
  | unequalDimensions left right =>
    some ("Vectors do not have equal dimension: " ++ left.repr ++ " vs " ++ right.repr)
  | vectorSum left right =>
    some ("Cannot add vectors of different dimensions: " ++ left.repr ++ " vs " ++ right.repr)
  | vectorDifference left right =>
    some ("Cannot subtract vectors of different dimensions: " ++ left.repr ++ " vs "
      ++ right.repr)
  | matrixSum left right =>
    some ("Cannot add matrices of different dimensions: " ++ pairText left ++ " vs "
      ++ pairText right)
  | matrixDifference left right =>
    some ("Cannot subtract matrices of different dimensions: " ++ pairText left ++ " vs "
      ++ pairText right)
  | matrixProduct left right =>
    some ("Cannot multiply matrices because of a dimension mismatch: " ++ pairText left
      ++ " vs " ++ pairText right)
  | minorOutOfRange row col nrows ncols =>
    some ("Minor " ++ pairText (row, col) ++ " out of bounds for a " ++ pairText (nrows, ncols)
      ++ " matrix")
  | columnOutOfRange col => some ("Column " ++ col.repr ++ " out of bounds")
  | exponentTooLarge exponent =>
    some ("Power of exponentation is larger than 2^32: " ++ exponent.repr)
  | positionOutOfRange => none
  | zeroDivisor => none
  | emptyRange => none
  | precisionTooLarge _ => none
  | columnTooWide _ => none

/-- The fault of two columns, given by their dimensions, that should have been equally long. -/
def Fault.columnMismatch (expected found : Nat) : Fault :=
  .shape (.dimensionMismatch (expected, 1) (found, 1))

end LinearSystems
