import LinearSystems.DenseMatrix.Basic

/-!
# Flats

A `SpanningSet` is a list of direction vectors and stands for their span. The directions are not
zero and have one dimension; they may be linearly dependent. A `Flat` is the span of such a set
moved by an offset: a point, a line, a plane, and so on.

`SpanningSet.of` and `Flat.of` check what they are given. The other constructions need no check,
and drop zero directions.
-/

namespace LinearSystems

/-- Directions that span a linear subspace. -/
structure SpanningSet (K : Type) where
  directions : List (DenseVector K)
  deriving DecidableEq, Repr

/-- The span of a set of directions, moved by an offset. -/
structure Flat (K : Type) where
  span : SpanningSet K
  offset : DenseVector K
  deriving DecidableEq, Repr

namespace SpanningSet

variable {K : Type}

/-- The subspace that holds the zero vector only. -/
def zero : SpanningSet K :=
  ⟨[]⟩

/-- The number of directions. -/
def size (s : SpanningSet K) : Nat :=
  s.directions.length

/-- The directions as the rows of a matrix, if there are any. -/
def rowMatrix? (s : SpanningSet K) : Option (DenseMatrix K) :=
  match s.directions with
  | [] => none
  | d :: ds => (DenseMatrix.ofRows (d :: ds)).toOption

variable [Scalar K]

/-- The span of directions of one dimension. Zero vectors are dropped. -/
def ofDirections (directions : List (DenseVector K)) : SpanningSet K :=
  ⟨directions.filter fun d => !d.isZero⟩

/-- The span of directions, whose dimensions must agree with that of the first. -/
def of (directions : List (DenseVector K)) : Except Fault (SpanningSet K) :=
  let dim := (directions.head?.map DenseVector.dim).getD 0
  match directions.find? fun d => d.dim != dim with
  | some d => .error (.columnMismatch dim d.dim)
  | none => .ok (ofDirections directions)

/-- Whether two sets have the same directions in the same order. -/
def equal (s t : SpanningSet K) : Bool :=
  s.size == t.size && (s.directions.zip t.directions).all fun p => p.1.equal p.2

/-- No direction of a set that drops zero vectors is zero. -/
theorem isZero_of_mem_ofDirections {directions : List (DenseVector K)} {d : DenseVector K}
    (h : d ∈ (ofDirections directions).directions) : d.isZero = false := by
  simpa [ofDirections] using (List.mem_filter.1 h).2

end SpanningSet

namespace Flat

variable {K : Type}

/-- The dimension of the space in which the flat lies. -/
def ambientDim (f : Flat K) : Nat :=
  f.offset.dim

/-- The flat that consists of a single point. -/
def point (p : DenseVector K) : Flat K :=
  ⟨SpanningSet.zero, p⟩

/-- The flat through `offset` along a span, whose directions must have the dimension of the
offset. -/
def of (span : SpanningSet K) (offset : DenseVector K) : Except Fault (Flat K) :=
  match span.directions.find? fun d => d.dim != offset.dim with
  | some d => .error (.columnMismatch offset.dim d.dim)
  | none => .ok ⟨span, offset⟩

variable [Scalar K]

/-! ### Lines -/

/-- The line through a point along a direction. -/
def line (point direction : DenseVector K) : Except Fault (Flat K) := do
  of (← SpanningSet.of [direction]) point

/-- The line through two points, with the first one as its offset. -/
def lineThrough (p q : DenseVector K) : Except Fault (Flat K) :=
  if p.dim = q.dim then do line p (← p.sub q) else .error (.columnMismatch p.dim q.dim)

/-- The line through `offset` along `direction`, two vectors of one dimension. -/
def along (direction offset : DenseVector K) : Flat K :=
  ⟨SpanningSet.ofDirections [direction], offset⟩

/-- The line `y = gradient * x + intercept` of the plane. -/
def lineFromGradient (gradient intercept : K) : Flat K :=
  along ⟨[Scalar.one, gradient]⟩ ⟨[Scalar.zero, intercept]⟩

/-- The line `x = c` of the plane. -/
def verticalLine (c : K) : Flat K :=
  along ⟨[Scalar.zero, Scalar.one]⟩ ⟨[c, Scalar.zero]⟩

/-- The line `y = c` of the plane. -/
def horizontalLine (c : K) : Flat K :=
  along ⟨[Scalar.one, Scalar.zero]⟩ ⟨[Scalar.zero, c]⟩

/-! ### Points of a flat -/

/-- The sum of the directions, each multiplied by its coefficient. Coefficients that count as zero
are skipped. -/
def combine (f : Flat K) (coefficients : List K) : Except Fault (DenseVector K) :=
  (f.span.directions.zip coefficients).foldlM
    (fun v (d, c) => if Scalar.isZero c then .ok v else v.add (d.scale c)) f.offset.zeroLike

/-- The point with the given parameters, one for each direction. -/
def pointAt (f : Flat K) (params : List K) : Except Fault (DenseVector K) :=
  if params.length = f.span.size then do f.offset.add (← f.combine params)
  else .error (.columnMismatch f.span.size params.length)

/-- The flat of all differences of a point of `f` and a point of `g`: the directions of `f`
followed by the negated ones of `g`, moved by the difference of the offsets. -/
def difference (f g : Flat K) : Except Fault (Flat K) :=
  if f.ambientDim = g.ambientDim then do
    let directions := f.span.directions ++ g.span.directions.map DenseVector.neg
    return ⟨SpanningSet.ofDirections directions, ← f.offset.sub g.offset⟩
  else .error (.columnMismatch f.ambientDim g.ambientDim)

/-- Whether two flats have the same directions, in the same order, and the same offset. -/
def equal (f g : Flat K) : Bool :=
  f.span.equal g.span && f.offset.equal g.offset

end Flat

end LinearSystems
