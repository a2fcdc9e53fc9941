import LinearSystems.LinearSystem.Solution

/-!
# Spans and intersections

Eliminating the matrix whose rows are the directions gives a basis and the dimension of a span.
Membership of a vector is the solvability of the system whose columns are the directions. The row
space of a matrix is spanned by the rows of its echelon form, the column space by those of its
own columns that hold a pivot.

A common point of two flats has parameters on both, `f.offset + Σ aᵢ dᵢ = g.offset + Σ bⱼ eⱼ`.
That is a linear system in all parameters together: its columns are the directions of the
difference of the flats, its constants the negated offset of it. The parameters that belong to the
first flat lead back to the common points.
-/

namespace LinearSystems

variable {K : Type} [Scalar K]

/-- The span of the rows, by the non-zero rows of the row echelon form. -/
def DenseMatrix.rowSpace (m : DenseMatrix K) : Traced (SpanningSet K) := do
  return SpanningSet.ofDirections (← (← m.rowEchelonForm).rows)

/-- The span of the columns, by the columns that hold a pivot. -/
def DenseMatrix.colSpace (m : DenseMatrix K) : Traced (SpanningSet K) := do
  let columns ← m.pivotColumns
  let directions : List (DenseVector K) ← (columns.mapM m.colVector : Except Fault _)
  return SpanningSet.ofDirections directions

namespace SpanningSet

/-- Linearly independent directions with the same span. -/
def basis (s : SpanningSet K) : Traced (List (DenseVector K)) :=
  match s.rowMatrix? with
  | some m => SpanningSet.directions <$> m.rowSpace
  | none => pure []

/-- The number of vectors of a basis. -/
def dimension (s : SpanningSet K) : Traced Nat :=
  match s.rowMatrix? with
  | some m => m.rank
  | none => pure 0

/-- Whether a vector lies in the span. -/
def contains (s : SpanningSet K) (v : DenseVector K) : Traced Bool :=
  match s.rowMatrix? with
  | some m => do
    let columns ← m.transpose
    return !(← columns.solve v).isEmpty
  | none => pure v.isZero

end SpanningSet

/-- Whether vectors are linearly independent. A zero vector among them settles the question
without an elimination. -/
def DenseVector.areIndependent (vectors : List (DenseVector K)) : Traced Bool := do
  let span ← SpanningSet.of vectors
  if span.size = vectors.length then return (← span.dimension) == vectors.length
  else return false

/-! ### Intersections of flats -/

namespace Flat

/-- The system with the directions as its columns and the offset as its constants. -/
def system (f : Flat K) : Except Fault (LinearSystem K) :=
  LinearSystem.mk <$> DenseMatrix.ofColumns (f.span.directions ++ [f.offset])

/-- The points of a flat whose parameters run through a flat of the parameter space, of which the
first coordinates count. -/
def image (f parameters : Flat K) : Except Fault (Flat K) := do
  let k := f.span.size
  let offset ← f.pointAt (← parameters.offset.initial k)
  let directions ← parameters.span.directions.mapM fun d => do f.combine (← d.initial k)
  return ⟨SpanningSet.ofDirections directions, offset⟩

/-- The common points of two flats. -/
def intersection (f g : Flat K) : Traced (SolutionSet K) := do
  Traced.report (.intersecting f.ambientDim)
  let difference ← f.difference g
  let equations ← system ⟨difference.span, difference.offset.neg⟩
  match ← equations.solution with
  | .empty =>
    Traced.report .disjointFlats
    return .empty
  | .point p => return .point (← f.pointAt (← p.initial f.span.size))
  | .space s =>
    let common ← f.image s
    if common.span.directions.isEmpty then Traced.report .singlePoint
    return .space common

/-- Whether a point lies on a flat. -/
def contains (f : Flat K) (p : DenseVector K) : Traced Bool :=
  if p.dim = f.ambientDim then do f.span.contains (← p.sub f.offset)
  else Traced.fail (.columnMismatch f.ambientDim p.dim)

end Flat

end LinearSystems
