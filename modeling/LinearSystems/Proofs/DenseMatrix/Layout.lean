import LinearSystems.Proofs.DenseMatrix.Grid
import LinearSystems.Proofs.DenseVector.Tabulate
import LinearSystems.DenseMatrix.Operations

/-!
# Rows, splits and minors of grids

The operations that read a storage as a whole: rows, the pieces into which a storage is cut, a
split between two columns, an appended column, the transpose, and minors. Each of them takes
tabulations to tabulations, for scalars of every kind.

`Grid.skip k` counts the numbers other than `k`; the minor of a grid reads the grid along it.
-/

namespace LinearSystems

variable {K : Type} {r c : ℕ}

/-- The `i`-th number other than `k`. -/
def Grid.skip (k i : ℕ) : ℕ :=
  if i < k then i else i + 1

/-- The numbers below `n` other than `k`, in their order. -/
theorem Grid.filter_range_ne {n k : ℕ} (hk : k < n) :
    (List.range n).filter (fun i => i != k) = (List.range (n - 1)).map (Grid.skip k) := by
  induction n with
  | zero => exact absurd hk (Nat.not_lt_zero k)
  | succ n ih =>
    rw [List.range_succ, List.filter_append, Nat.add_sub_cancel]
    rcases Nat.lt_succ_iff_lt_or_eq.1 hk with hlt | rfl
    · obtain ⟨m, rfl⟩ : ∃ m, n = m + 1 := ⟨n - 1, by omega⟩
      rw [ih hlt, Nat.add_sub_cancel, List.range_succ, List.map_append, List.map_singleton,
        Grid.skip, if_neg (by omega)]
      simp [Nat.ne_of_gt hlt]
    · have hall : (List.range k).filter (fun i => i != k) = List.range k :=
        List.filter_eq_self.2 fun i hi => by simpa using Nat.ne_of_lt (List.mem_range.1 hi)
      have hskip : (List.range k).map (Grid.skip k) = List.range k :=
        (List.map_congr_left fun i hi => if_pos (List.mem_range.1 hi)).trans (List.map_id _)
      rw [hall, hskip]
      simp

/-- The grid with a column appended behind the first `c` columns. -/
def Grid.augment (c : ℕ) (f : Grid K) (b : ℕ → K) : Grid K := fun i j =>
  if j < c then f i j else b i

namespace DenseMatrix

/-! ### Rows -/

theorem row_tabulate (f : Grid K) {i : ℕ} (hi : i < r) :
    (tabulate r c f).row i = .ok ((List.range c).map (f i)) := by
  have hend : (i + 1) * c ≤ r * c := Nat.mul_le_mul_right c hi
  rw [row, if_pos (by simpa [linearPosition, tabulate] using hend)]
  refine congrArg Except.ok (List.ext_getElem ?_ fun j hj hj' => ?_)
  · rw [Nat.succ_mul] at hend
    have hlength : min c (r * c - i * c) = c := by omega
    simpa [linearPosition, tabulate, Nat.succ_mul] using hlength
  · have hjc : j < c := by simpa using hj'
    simp [linearPosition, tabulate, place_div hjc, Nat.mod_eq_of_lt hjc]

/-- All rows as vectors. -/
theorem rows_tabulate (f : Grid K) :
    (tabulate r c f).rows = .ok ((List.range r).map fun i => DenseVector.tabulate c (f i)) := by
  rw [rows, nrows_tabulate]
  refine mapM_eq_ok fun i hi => ?_
  rw [rowVector, row_tabulate f (List.mem_range.1 hi), map_ok]
  rfl

theorem colVector_tabulate (f : Grid K) {j : ℕ} (hj : j < c) :
    (tabulate r c f).colVector j = .ok (DenseVector.tabulate r fun i => f i j) := by
  have hcol : (tabulate r c f).col j = .ok ((List.range r).map fun i => f i j) :=
    mapM_eq_ok fun i hi => get_tabulate f (List.mem_range.1 hi) hj
  rw [colVector, hcol, map_ok]
  rfl

/-- Chosen columns as vectors. -/
theorem mapM_colVector_of_lt (f : Grid K) {columns : List ℕ} (h : ∀ j ∈ columns, j < c) :
    columns.mapM (tabulate r c f).colVector
      = .ok (columns.map fun j => DenseVector.tabulate r fun i => f i j) :=
  mapM_eq_ok fun j hj => colVector_tabulate f (h j hj)

/-- All columns as vectors. -/
theorem mapM_colVector_tabulate (f : Grid K) :
    (List.range c).mapM (tabulate r c f).colVector
      = .ok ((List.range c).map fun j => DenseVector.tabulate r fun i => f i j) :=
  mapM_colVector_of_lt f fun _ => List.mem_range.1

/-- Pieces of one width are found again. -/
theorem chunks_flatten {width : ℕ} (hwidth : 0 < width) {pieces : List (List K)}
    (h : ∀ piece ∈ pieces, piece.length = width) : chunks width pieces.flatten = pieces := by
  induction pieces with
  | nil => rw [List.flatten_nil, chunks]
  | cons piece pieces ih =>
    have hlength := h piece List.mem_cons_self
    obtain ⟨x, xs, rfl⟩ : ∃ x xs, piece = x :: xs :=
      List.exists_cons_of_length_pos (by omega)
    have hxs : width - 1 = xs.length := by
      rw [← hlength, List.length_cons, Nat.add_sub_cancel]
    rw [List.flatten_cons, List.cons_append, chunks, hxs, List.take_left, List.drop_left,
      ih fun piece hpiece => h piece (List.mem_cons_of_mem _ hpiece)]

theorem rowChunks_tabulate (f : Grid K) (hc : 0 < c) :
    (tabulate r c f).rowChunks = (List.range r).map fun i => (List.range c).map (f i) := by
  rw [rowChunks, toList_tabulate, List.flatMap_def, ncols_tabulate, chunks_flatten hc]
  intro piece hpiece
  obtain ⟨i, -, rfl⟩ := List.mem_map.1 hpiece
  simp

/-! ### Splits and appended columns -/

theorem splitAtCol_tabulate (f : Grid K) {col : ℕ} (hcol : col ≤ c) :
    (tabulate r c f).splitAtCol col
      = .ok (tabulate r col f, tabulate r (c - col) fun i j => f i (col + j)) := by
  rw [splitAtCol, ncols_tabulate, nrows_tabulate, if_pos hcol]
  rcases Nat.eq_zero_or_pos c with rfl | hc
  · -- without columns there are no pieces to cut, and nothing to put into the halves
    obtain rfl := Nat.le_zero.1 hcol
    simp [rowChunks, tabulate, chunks]
  · -- the cut of each piece succeeds, and its halves are those of the range of columns
    have hcut : ∀ piece ∈ (List.range r).map fun i => (List.range c).map (f i),
        splitRow col piece = .ok (piece.splitAt col) := by
      intro piece hpiece
      obtain ⟨i, -, rfl⟩ := List.mem_map.1 hpiece
      rw [splitRow, if_pos (by simpa using hcol)]
    have hrange : List.range c = List.range col ++ (List.range (c - col)).map (col + ·) := by
      rw [← List.range_add, Nat.add_sub_cancel' hcol]
    have hhalves : ∀ i, ((List.range c).map (f i)).splitAt col
        = ((List.range col).map (f i), (List.range (c - col)).map fun j => f i (col + j)) := by
      intro i
      rw [List.splitAt_eq, hrange, List.map_append, List.take_left' (by simp),
        List.drop_left' (by simp), List.map_map]
      rfl
    rw [rowChunks_tabulate f hc, List.take_of_length_le (by simp), mapM_eq_ok hcut, ok_bind,
      pure_eq_ok]
    simp only [List.flatMap_map, hhalves, mk_flatMap_eq_tabulate]

/-- A matrix without rows that has as many columns as can be counted gets no further one. -/
theorem augment_of_columnLimit_le {m : DenseMatrix K} {b : DenseVector K} (hdim : b.dim = m.nrows)
    (hrows : m.nrows = 0) (hcols : columnLimit ≤ m.ncols) :
    m.augment b = .error (.breach (.columnOutOfRange m.ncols)) := by
  rw [augment, if_pos hdim, if_pos ⟨hrows, hcols⟩]

/-- A square matrix without rows has no columns either. -/
theorem lt_columnLimit_of_eq_zero {n : ℕ} (h : n = 0) : n < columnLimit := by
  rw [h]
  decide

/-- Any other matrix with as many rows as the vector has entries gets one. -/
theorem augment_tabulate (hroom : r = 0 → c < columnLimit) (f : Grid K) (b : ℕ → K) :
    (tabulate r c f).augment (DenseVector.tabulate r b)
      = .ok (tabulate r (c + 1) (f.augment c b)) := by
  -- each row with its own entry of the vector behind it
  have hrow : ∀ p ∈ (List.range r).map fun i => (b i, i),
      (do return (← (tabulate r c f).row p.2) ++ [p.1] : Except Fault (List K))
        = .ok ((List.range (c + 1)).map (f.augment c b p.2)) := by
    intro p hp
    obtain ⟨i, hi, rfl⟩ := List.mem_map.1 hp
    rw [row_tabulate f (List.mem_range.1 hi), ok_bind, pure_eq_ok, List.range_succ,
      List.map_append, List.map_singleton, Grid.augment, if_neg (Nat.lt_irrefl c)]
    refine congrArg (fun l => Except.ok (l ++ [b i])) (List.map_congr_left fun j hj => ?_)
    rw [Grid.augment, if_pos (List.mem_range.1 hj)]
  have hfull : ¬((tabulate r c f).nrows = 0 ∧ columnLimit ≤ (tabulate r c f).ncols) :=
    fun h => Nat.not_le.2 (hroom h.1) h.2
  rw [augment, if_pos (by simp), if_neg hfull, DenseVector.zipIdx_tabulate, mapM_eq_ok hrow,
    ok_bind, pure_eq_ok, List.map_map, ← List.flatMap_def]
  exact congrArg Except.ok (mk_flatMap_eq_tabulate (f.augment c b))

/-- The columns before an appended one. -/
theorem tabulate_augment (f : Grid K) (b : ℕ → K) :
    tabulate r c (f.augment c b) = tabulate r c f :=
  tabulate_congr fun _ _ _ hj => if_pos hj

/-! ### Computed entries -/

/-- A matrix whose entries are computed without a failure is a tabulation. -/
theorem tabulateM_eq_ok {f : ℕ → ℕ → Except Fault K} {g : Grid K}
    (h : ∀ i < r, ∀ j < c, f i j = .ok (g i j)) : tabulateM r c f = .ok (tabulate r c g) := by
  have hentry : ∀ p ∈ List.range (r * c), f (p / c) (p % c) = .ok (g (p / c) (p % c)) := by
    intro p hp
    have hpos : p < r * c := List.mem_range.1 hp
    have hc : 0 < c := Nat.pos_of_mul_pos_left (Nat.zero_lt_of_lt hpos)
    exact h _ ((Nat.div_lt_iff_lt_mul hc).2 hpos) _ (Nat.mod_lt _ hc)
  rw [tabulateM, mapM_eq_ok hentry, ok_bind, pure_eq_ok]
  refine congrArg (fun entries => Except.ok (⟨r, c, entries⟩ : DenseMatrix K)) ?_
  exact Array.ext (by simp) fun p _ _ => by simp

theorem transpose_tabulate (f : Grid K) :
    (tabulate r c f).transpose = .ok (tabulate c r fun i j => f j i) :=
  tabulateM_eq_ok fun _ hj _ hi => get_tabulate f hi hj

/-- Vectors of one dimension are the rows of a matrix, if there are any. -/
theorem ofRows_tabulate {d n : ℕ} (hn : 0 < n) (x : ℕ → ℕ → K) :
    ofRows ((List.range n).map fun i => DenseVector.tabulate d (x i)) = .ok (tabulate n d x) := by
  have hentries : (((List.range n).map fun i => DenseVector.tabulate d (x i)).map
      DenseVector.entries) = (List.range n).map fun i => (List.range d).map (x i) := by
    rw [List.map_map]
    rfl
  -- the width is that of the first row
  have hhead : (((List.range n).map fun i => (List.range d).map (x i)).head?.map
      List.length).getD 0 = d := by
    obtain ⟨n, rfl⟩ := Nat.exists_eq_succ_of_ne_zero (Nat.ne_of_gt hn)
    simp [List.range_succ_eq_map]
  rw [ofRows, hentries, ofNested, hhead, if_pos (by simp), List.length_map, List.length_range,
    ← List.flatMap_def]
  exact congrArg Except.ok (mk_flatMap_eq_tabulate x)

/-- Vectors of one dimension are the columns of a matrix, if there are any: they are laid out as
rows first, and then transposed. -/
theorem ofColumns_tabulate {d n : ℕ} (hn : 0 < n) (x : ℕ → ℕ → K) :
    ofColumns ((List.range n).map fun j => DenseVector.tabulate d (x j))
      = .ok (tabulate d n fun i j => x j i) := by
  rw [ofColumns, ofRows_tabulate hn, ok_bind, transpose_tabulate]

/-! ### The storage with its positions -/

theorem zipIdx_tabulate (f : Grid K) :
    (tabulate r c f).entries.zipIdx.toList
      = (List.range r).flatMap fun i => (List.range c).map fun j => (f i j, i * c + j) := by
  have hlist : (tabulate r c f).entries.zipIdx.toList
      = (List.range (r * c)).map fun p => (f (p / c) (p % c), p) :=
    List.ext_getElem (by simp [tabulate]) fun p _ _ => by simp [tabulate]
  rw [hlist]
  exact map_places fun i j p => (f i j, p)

/-- Rows that are passed over contribute nothing to the storage. -/
private theorem flatMap_ite {α β : Type} (l : List α) (p : α → Bool) (g : α → List β) :
    (l.flatMap fun a => if p a then g a else []) = (l.filter p).flatMap g := by
  induction l with
  | nil => rfl
  | cons a l ih =>
    rw [List.flatMap_cons, ih, List.filter_cons]
    split_ifs <;> simp

/-- The minor reads the grid along the rows and columns that remain. -/
theorem minor_tabulate (f : Grid K) {row col : ℕ} (hrow : row < r) (hcol : col < c) :
    (tabulate r c f).minor row col
      = .ok (tabulate (r - 1) (c - 1) fun i j => f (Grid.skip row i) (Grid.skip col j)) := by
  -- the entries that the filter keeps, row by row
  have hkept : (((tabulate r c f).entries.zipIdx.filter fun p =>
      p.2 / c != row && p.2 % c != col).map Prod.fst).toList
      = (List.range (r - 1)).flatMap fun i =>
          (List.range (c - 1)).map fun j => f (Grid.skip row i) (Grid.skip col j) := by
    rw [Array.toList_map, Array.toList_filter, zipIdx_tabulate, List.filter_flatMap,
      List.map_flatMap]
    have hpiece : ∀ i, (((List.range c).map fun j => (f i j, i * c + j)).filter
        fun p => p.2 / c != row && p.2 % c != col).map Prod.fst
          = if i != row then (List.range (c - 1)).map fun j => f i (Grid.skip col j) else [] := by
      intro i
      rw [List.filter_map, List.map_map]
      have htest : (List.range c).filter
          ((fun p : K × ℕ => p.2 / c != row && p.2 % c != col) ∘ fun j => (f i j, i * c + j))
            = (List.range c).filter fun j => i != row && j != col := by
        refine List.filter_congr fun j hj => ?_
        have hjc : j < c := List.mem_range.1 hj
        rw [Function.comp_apply, place_div hjc, Nat.mul_add_mod_of_lt hjc]
      rw [htest]
      split_ifs with hi
      · simp only [hi, Bool.true_and]
        rw [Grid.filter_range_ne hcol, List.map_map]
        rfl
      · simp [hi]
    simp only [hpiece]
    rw [flatMap_ite, Grid.filter_range_ne hrow, List.flatMap_map]
  rw [← mk_flatMap_eq_tabulate fun i j => f (Grid.skip row i) (Grid.skip col j), ← hkept,
    Array.toArray_toList, minor, nrows_tabulate, ncols_tabulate, if_pos ⟨hrow, hcol⟩]

theorem isIdentity_tabulate [Scalar K] (f : Grid K) :
    (tabulate r c f).isIdentity = true ↔ ∀ i < r, ∀ j < c,
      (if i = j then Scalar.isOne (f i j) else Scalar.isZero (f i j)) = true := by
  rw [isIdentity, ← Array.all_toList, zipIdx_tabulate]
  simp only [List.all_flatMap, List.all_map, List.all_eq_true, List.mem_range, Function.comp_apply]
  refine forall_congr' fun i => forall_congr' fun _ => ?_
  refine forall_congr' fun j => forall_congr' fun hj => ?_
  rw [ncols_tabulate, place_div hj, Nat.mul_add_mod_of_lt hj]

end DenseMatrix

end LinearSystems
