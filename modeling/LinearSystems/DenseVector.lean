import LinearSystems.Scalar

/-!
# Vectors

A `DenseVector` is the list of its entries, and its dimension is their number. Operations on two
vectors check the dimensions first and name the ones they found. Sums of products run from the
first entry to the last and start at zero, which matters to scalars that round.
-/

namespace LinearSystems

/-- A vector, given by its entries. -/
structure DenseVector (K : Type) where
  entries : List K
  deriving DecidableEq, Repr

namespace DenseVector

variable {K : Type}

/-- The number of entries. -/
def dim (v : DenseVector K) : Nat :=
  v.entries.length

/-- The entry at a position. -/
def get (v : DenseVector K) (i : Nat) : Except Fault K :=
  match v.entries[i]? with
  | some e => .ok e
  | none => .error (.breach .positionOutOfRange)

/-- The vector with one entry replaced. -/
def set (v : DenseVector K) (i : Nat) (e : K) : Except Fault (DenseVector K) :=
  if i < v.dim then .ok ⟨v.entries.set i e⟩ else .error (.breach .positionOutOfRange)

/-- The first `k` entries. -/
def initial (v : DenseVector K) (k : Nat) : Except Fault (List K) :=
  if k ≤ v.dim then .ok (v.entries.take k) else .error (.breach .positionOutOfRange)

theorem get_eq_ok_iff {v : DenseVector K} {i : Nat} {e : K} :
    v.get i = .ok e ↔ v.entries[i]? = some e := by
  unfold get
  cases v.entries[i]? <;> simp

variable [Scalar K]

/-- The zero vector of a dimension. -/
def zero (dim : Nat) : DenseVector K :=
  ⟨List.replicate dim Scalar.zero⟩

/-- The zero vector of the dimension of `v`. -/
def zeroLike (v : DenseVector K) : DenseVector K :=
  zero v.dim

/-- The unit vector along an axis. -/
def unit (dim axis : Nat) : Except Fault (DenseVector K) :=
  if axis < dim then .ok ⟨(List.replicate dim Scalar.zero).set axis Scalar.one⟩
  else .error (.breach (.axisOutOfRange axis dim))

/-- Whether every entry counts as zero. The empty vector is zero. -/
def isZero (v : DenseVector K) : Bool :=
  v.entries.all Scalar.isZero

/-- The position of the first entry that does not count as zero. -/
def firstNonzeroIndex? (v : DenseVector K) : Option Nat :=
  v.entries.findIdx? fun e => !Scalar.isZero e

/-- The first entry that does not count as zero. -/
def firstNonzero? (v : DenseVector K) : Option K :=
  v.entries.find? fun e => !Scalar.isZero e

/-- Whether two vectors have the same dimension and entries that count as the same. -/
def equal (v w : DenseVector K) : Bool :=
  v.dim == w.dim && (v.entries.zip w.entries).all fun p => Scalar.equal p.1 p.2

/-- Every entry multiplied by a scalar. -/
def scale (v : DenseVector K) (e : K) : DenseVector K :=
  ⟨v.entries.map fun x => Scalar.mul x e⟩

/-- Every entry negated. -/
def neg (v : DenseVector K) : DenseVector K :=
  ⟨v.entries.map Scalar.neg⟩

/-- The entrywise sum. -/
def add (v w : DenseVector K) : Except Fault (DenseVector K) :=
  if v.dim = w.dim then .ok ⟨List.zipWith Scalar.add v.entries w.entries⟩
  else .error (.breach (.vectorSum v.dim w.dim))

/-- The entrywise difference. -/
def sub (v w : DenseVector K) : Except Fault (DenseVector K) :=
  if v.dim = w.dim then .ok ⟨List.zipWith Scalar.sub v.entries w.entries⟩
  else .error (.breach (.vectorDifference v.dim w.dim))

/-- The sum of the products of two lists, entry by entry. -/
def sumOfProducts (xs ys : List K) : K :=
  (xs.zip ys).foldl (fun sum p => Scalar.addMul sum p.1 p.2) Scalar.zero

/-- The scalar product. -/
def dot (v w : DenseVector K) : Except Fault K :=
  if v.dim = w.dim then .ok (sumOfProducts v.entries w.entries)
  else .error (.breach (.unequalDimensions v.dim w.dim))

/-- The scalar product of a vector with itself. -/
def normSquared (v : DenseVector K) : K :=
  sumOfProducts v.entries v.entries

/-- The Euclidean length, if its square root exists among the scalars. -/
def norm? (v : DenseVector K) : Option K :=
  Scalar.sqrt? v.normSquared

/-- The minor `p.1 * q.2 - q.1 * p.2` of two columns with two entries each. -/
def minor (p q : K × K) : K :=
  Scalar.sub (Scalar.mul p.1 q.2) (Scalar.mul q.1 p.2)

/-- The cross product in three dimensions. -/
def crossProduct (v w : DenseVector K) : Except Fault (DenseVector K) :=
  match v.entries, w.entries with
  | [a₀, a₁, a₂], [b₀, b₁, b₂] =>
    .ok ⟨[minor (a₁, b₁) (a₂, b₂), minor (a₂, b₂) (a₀, b₀), minor (a₀, b₀) (a₁, b₁)]⟩
  | _, _ => .error (.columnMismatch 3 (max v.dim w.dim))

/-- Whether all minors of pairs of columns vanish. -/
def minorsVanish : List (K × K) → Bool
  | [] => true
  | p :: rest => (rest.all fun q => Scalar.isZero (minor p q)) && minorsVanish rest

/-- Whether one of two vectors is a multiple of the other, decided by the minors of the pair. -/
def isParallel (v w : DenseVector K) : Except Fault Bool :=
  if v.dim = w.dim then .ok (minorsVanish (v.entries.zip w.entries))
  else .error (.columnMismatch v.dim w.dim)

/-! ### Dimensions -/

@[simp] theorem dim_zero (n : Nat) : (zero n : DenseVector K).dim = n := by
  simp [zero, dim]

@[simp] theorem dim_scale (v : DenseVector K) (e : K) : (v.scale e).dim = v.dim := by
  simp [scale, dim]

@[simp] theorem dim_neg (v : DenseVector K) : v.neg.dim = v.dim := by
  simp [neg, dim]

theorem dim_add {v w s : DenseVector K} (h : v.add w = .ok s) : s.dim = v.dim := by
  unfold add at h
  split at h
  · next hdim =>
    cases h
    simp only [dim] at hdim ⊢
    simp [hdim]
  · cases h

theorem dim_sub {v w s : DenseVector K} (h : v.sub w = .ok s) : s.dim = v.dim := by
  unfold sub at h
  split at h
  · next hdim =>
    cases h
    simp only [dim] at hdim ⊢
    simp [hdim]
  · cases h

end DenseVector

end LinearSystems
