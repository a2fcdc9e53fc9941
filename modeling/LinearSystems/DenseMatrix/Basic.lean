import LinearSystems.DenseVector

/-!
# Matrices in row-major storage

A `DenseMatrix` holds its dimensions and one array with the entries of all rows, one row after
the other. Nothing in the type forces the array to have as many entries as the dimensions ask
for; `WellFormed` says that it does, and every construction of this library yields a well-formed
matrix from well-formed ones.

An entry is looked up at `row * ncols + col` in the storage. The storage is the only bound that is
checked: `get` and `set` fail exactly for a position behind its end, so that no computation reads
what is not there without saying so. Writing is described by what is read afterwards
(`get_set_self`, `get_set_of_ne`), and a tabulated matrix by its entries (`get_tabulate`).
-/

namespace LinearSystems

/-- A matrix, given by its dimensions and its entries row by row. -/
structure DenseMatrix (K : Type) where
  nrows : Nat
  ncols : Nat
  entries : Array K
  deriving DecidableEq, Repr

/-- The first index from `start` on, among `count` many, that passes a test. -/
def findIndex (test : Nat → Except Fault Bool) (start : Nat) : Nat → Except Fault (Option Nat)
  | 0 => .ok none
  | count + 1 => do
    if ← test start then return some start
    else findIndex test (start + 1) count

namespace DenseMatrix

variable {K : Type}

/-- The storage has one entry for each row and column. -/
def WellFormed (m : DenseMatrix K) : Prop :=
  m.entries.size = m.nrows * m.ncols

instance (m : DenseMatrix K) : Decidable m.WellFormed :=
  inferInstanceAs (Decidable (_ = _))

/-- The pair of the dimensions. -/
def shape (m : DenseMatrix K) : Nat × Nat :=
  (m.nrows, m.ncols)

/-- Whether there are as many rows as columns. -/
def isSquare (m : DenseMatrix K) : Bool :=
  m.nrows == m.ncols

/-! ### Positions -/

/-- The position of an entry in the storage. -/
def linearPosition (m : DenseMatrix K) (row col : Nat) : Nat :=
  row * m.ncols + col

/-- The row and the column of a position in the storage, as 32-bit words. -/
def gridCoordinate (m : DenseMatrix K) (position : Nat) : Except Fault (UInt32 × UInt32) :=
  if m.ncols = 0 then .error (.breach .zeroDivisor)
  else .ok (UInt32.ofNat (position / m.ncols), UInt32.ofNat (position % m.ncols))

/-- The entry at a row and a column. -/
def get (m : DenseMatrix K) (row col : Nat) : Except Fault K :=
  match m.entries[m.linearPosition row col]? with
  | some e => .ok e
  | none => .error (.breach .positionOutOfRange)

/-- The matrix with the entry at a row and a column replaced. -/
def set (m : DenseMatrix K) (row col : Nat) (e : K) : Except Fault (DenseMatrix K) :=
  if h : m.linearPosition row col < m.entries.size then
    .ok { m with entries := m.entries.set (m.linearPosition row col) e h }
  else .error (.breach .positionOutOfRange)

theorem get_eq_ok_iff {m : DenseMatrix K} {row col : Nat} {e : K} :
    m.get row col = .ok e ↔ m.entries[m.linearPosition row col]? = some e := by
  unfold get
  cases m.entries[m.linearPosition row col]? <;> simp

/-- A position inside the shape lies inside the storage. -/
theorem linearPosition_lt {m : DenseMatrix K} (h : m.WellFormed) {row col : Nat}
    (hrow : row < m.nrows) (hcol : col < m.ncols) :
    m.linearPosition row col < m.entries.size := by
  rw [h, linearPosition]
  calc row * m.ncols + col < row * m.ncols + m.ncols := Nat.add_lt_add_left hcol _
    _ = (row + 1) * m.ncols := (Nat.succ_mul _ _).symm
    _ ≤ m.nrows * m.ncols := Nat.mul_le_mul_right _ hrow

/-- Every entry of the shape of a well-formed matrix can be read. -/
theorem exists_get {m : DenseMatrix K} (h : m.WellFormed) {row col : Nat}
    (hrow : row < m.nrows) (hcol : col < m.ncols) : ∃ e, m.get row col = .ok e :=
  ⟨_, get_eq_ok_iff.2 (Array.getElem?_eq_getElem (linearPosition_lt h hrow hcol))⟩

/-- Writing an entry keeps the shape and the size of the storage. -/
theorem set_eq_ok {m m' : DenseMatrix K} {row col : Nat} {e : K} (h : m.set row col e = .ok m') :
    m'.nrows = m.nrows ∧ m'.ncols = m.ncols ∧ m'.entries.size = m.entries.size := by
  unfold set at h
  split at h
  · cases h; simp
  · cases h

/-- Two entries agree if the storages agree at their positions. -/
theorem get_congr {m n : DenseMatrix K} {row col i j : Nat}
    (h : m.entries[m.linearPosition row col]? = n.entries[n.linearPosition i j]?) :
    m.get row col = n.get i j := by
  unfold get
  rw [h]

/-- An entry that was written is read back. -/
theorem get_set_self {m m' : DenseMatrix K} {row col : Nat} {e : K}
    (h : m.set row col e = .ok m') : m'.get row col = .ok e := by
  unfold set at h
  split at h
  · next hlt =>
    cases h
    exact get_eq_ok_iff.2 (Array.getElem?_set_self hlt)
  · cases h

/-- Writing an entry leaves the entries at the other positions alone. -/
theorem get_set_of_ne {m m' : DenseMatrix K} {row col row' col' : Nat} {e : K}
    (h : m.set row col e = .ok m')
    (hne : m.linearPosition row col ≠ m.linearPosition row' col') :
    m'.get row' col' = m.get row' col' := by
  unfold set at h
  split at h
  · next hlt =>
    cases h
    exact get_congr (Array.getElem?_set_ne hlt hne)
  · cases h

theorem set_wellFormed {m m' : DenseMatrix K} {row col : Nat} {e : K} (hm : m.WellFormed)
    (h : m.set row col e = .ok m') : m'.WellFormed := by
  obtain ⟨hrows, hcols, hsize⟩ := set_eq_ok h
  rw [WellFormed, hrows, hcols, hsize, hm]

/-! ### Rows and columns -/

/-- The entries of a row. -/
def row (m : DenseMatrix K) (i : Nat) : Except Fault (List K) :=
  if m.linearPosition (i + 1) 0 ≤ m.entries.size then
    .ok (m.entries.extract (m.linearPosition i 0) (m.linearPosition (i + 1) 0)).toList
  else .error (.breach .positionOutOfRange)

/-- The entries of a column. -/
def col (m : DenseMatrix K) (j : Nat) : Except Fault (List K) :=
  (List.range m.nrows).mapM fun i => m.get i j

/-- A row as a vector. -/
def rowVector (m : DenseMatrix K) (i : Nat) : Except Fault (DenseVector K) :=
  DenseVector.mk <$> m.row i

/-- A column as a vector. -/
def colVector (m : DenseMatrix K) (j : Nat) : Except Fault (DenseVector K) :=
  DenseVector.mk <$> m.col j

/-- All rows as vectors. -/
def rows (m : DenseMatrix K) : Except Fault (List (DenseVector K)) :=
  (List.range m.nrows).mapM m.rowVector

/-- Cut a list into pieces of a width; the last one may be shorter. Width zero counts as one. -/
def chunks {α : Type} (width : Nat) : List α → List (List α)
  | [] => []
  | x :: xs => (x :: xs.take (width - 1)) :: chunks width (xs.drop (width - 1))
termination_by xs => xs.length
decreasing_by simp only [List.length_drop, List.length_cons]; omega

/-- Nothing is lost in the cutting. -/
theorem flatten_chunks {α : Type} (width : Nat) (xs : List α) :
    (chunks width xs).flatten = xs := by
  fun_induction chunks width xs with
  | case1 => rfl
  | case2 x xs ih => simp [ih]

/-- If the length is a multiple of the width, every piece has the width. -/
theorem length_of_mem_chunks {α : Type} {width : Nat} (hwidth : 0 < width) {count : Nat}
    {xs : List α} (h : xs.length = count * width) :
    ∀ piece ∈ chunks width xs, piece.length = width := by
  fun_induction chunks width xs generalizing count with
  | case1 => simp
  | case2 x xs ih =>
    obtain _ | count := count
    · simp at h
    · rw [Nat.succ_mul, List.length_cons] at h
      intro piece hpiece
      rcases List.mem_cons.1 hpiece with rfl | hpiece
      · simp only [List.length_cons, List.length_take]
        omega
      · have hrest : (xs.drop (width - 1)).length = count * width := by
          rw [List.length_drop]
          omega
        exact ih hrest piece hpiece

/-- The stored entries, cut into rows. A matrix without columns has no such pieces. -/
def rowChunks (m : DenseMatrix K) : List (List K) :=
  chunks m.ncols m.entries.toList

/-! ### Construction -/

/-- The matrix whose entries are computed one after the other, row by row. -/
def tabulateM {μ : Type → Type} [Monad μ] (nrows ncols : Nat) (f : Nat → Nat → μ K) :
    μ (DenseMatrix K) := do
  let entries ← (List.range (nrows * ncols)).mapM fun p => f (p / ncols) (p % ncols)
  return ⟨nrows, ncols, entries.toArray⟩

/-- The matrix with the given entries, row by row. -/
def tabulate (nrows ncols : Nat) (f : Nat → Nat → K) : DenseMatrix K :=
  ⟨nrows, ncols, Array.ofFn fun p : Fin (nrows * ncols) => f (p / ncols) (p % ncols)⟩

theorem tabulate_wellFormed (nrows ncols : Nat) (f : Nat → Nat → K) :
    (tabulate nrows ncols f).WellFormed := by
  simp [WellFormed, tabulate]

theorem get_tabulate {nrows ncols : Nat} (f : Nat → Nat → K) {row col : Nat} (hrow : row < nrows)
    (hcol : col < ncols) : (tabulate nrows ncols f).get row col = .ok (f row col) := by
  have hpos := linearPosition_lt (tabulate_wellFormed nrows ncols f) hrow hcol
  rw [get_eq_ok_iff, Array.getElem?_eq_getElem hpos]
  simp only [tabulate, linearPosition, Array.getElem_ofFn]
  rw [Nat.mul_comm row ncols, Nat.mul_add_div (Nat.zero_lt_of_lt hcol), Nat.mul_add_mod,
    Nat.div_eq_of_lt hcol, Nat.mod_eq_of_lt hcol, Nat.add_zero]

/-- The matrix with the given storage, which must fit the dimensions. -/
def ofLinear (entries : List K) (nrows ncols : Nat) : Except Fault (DenseMatrix K) :=
  if entries.length = nrows * ncols then .ok ⟨nrows, ncols, entries.toArray⟩
  else .error (.shape (.invalidLength entries.length nrows ncols))

/-- The matrix with the given lists as rows. Without rows there are no columns either. -/
def ofNested (rows : List (List K)) : Except Fault (DenseMatrix K) :=
  let ncols := (rows.head?.map List.length).getD 0
  if rows.all fun r => r.length == ncols then .ok ⟨rows.length, ncols, rows.flatten.toArray⟩
  else .error (.shape .notRectangular)

/-- The matrix with the given vectors as rows. -/
def ofRows (rows : List (DenseVector K)) : Except Fault (DenseMatrix K) :=
  ofNested (rows.map DenseVector.entries)

/-- Rows become columns. -/
def transpose (m : DenseMatrix K) : Except Fault (DenseMatrix K) :=
  tabulateM m.ncols m.nrows fun j i => m.get i j

/-- The matrix with the given vectors as columns. -/
def ofColumns (columns : List (DenseVector K)) : Except Fault (DenseMatrix K) := do
  (← ofRows columns).transpose

theorem ofLinear_wellFormed {entries : List K} {nrows ncols : Nat} {m : DenseMatrix K}
    (h : ofLinear entries nrows ncols = .ok m) : m.WellFormed := by
  unfold ofLinear at h
  split at h
  · next hlen => cases h; simpa [WellFormed] using hlen
  · cases h

theorem ofNested_wellFormed {rows : List (List K)} {m : DenseMatrix K}
    (h : ofNested rows = .ok m) : m.WellFormed := by
  simp only [ofNested] at h
  split at h
  · next hall =>
    cases h
    simp only [WellFormed, List.size_toArray, List.length_flatten]
    have hlen : ∀ r ∈ rows, r.length = (rows.head?.map List.length).getD 0 := by
      simpa using hall
    rw [List.map_congr_left hlen, List.map_const', List.sum_replicate_nat]
  · cases h

variable [Scalar K]

/-- The matrix of zeros. -/
def zero (nrows ncols : Nat) : DenseMatrix K :=
  ⟨nrows, ncols, Array.replicate (nrows * ncols) Scalar.zero⟩

/-- The matrix with ones on the main diagonal and zeros elsewhere. -/
def rectangularIdentity (nrows ncols : Nat) : DenseMatrix K :=
  tabulate nrows ncols fun i j => if i = j then Scalar.one else Scalar.zero

/-- The square matrix with ones on the main diagonal. -/
def identity (n : Nat) : DenseMatrix K :=
  rectangularIdentity n n

/-- Whether every entry counts as zero. -/
def isZero (m : DenseMatrix K) : Bool :=
  m.entries.all Scalar.isZero

/-- Whether the entries on the main diagonal count as one and the others as zero. -/
def isIdentity (m : DenseMatrix K) : Bool :=
  m.entries.zipIdx.all fun (e, p) =>
    if p / m.ncols = p % m.ncols then Scalar.isOne e else Scalar.isZero e

/-- Whether two matrices have the same shape and entries that count as the same. -/
def equal (m n : DenseMatrix K) : Bool :=
  m.entries.size == n.entries.size
    && ((m.entries.zip n.entries).all fun p => Scalar.equal p.1 p.2)
    && m.nrows == n.nrows && m.ncols == n.ncols

end DenseMatrix

end LinearSystems
