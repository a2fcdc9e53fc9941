import LinearSystems.Proofs.DenseMatrix.RowOperations
import LinearSystems.DenseMatrix.Elimination

/-!
# Elimination on grids

`Sweep` is the state of an elimination with a grid in the place of a matrix, and `Sweep.after r f n`
is the state after `n` columns of the grid `f` with `r` rows. The width of the matrix is not part
of it: an elimination of `c` columns is the sweep after `c` of them (`ofMatrix_tabulate`), so the
eliminations of a matrix and of its left part are two moments of one and the same sweep. An
elimination that stops because no row is left does what the sweep does in the remaining columns,
which is nothing.

`Grid.reduceRows` is back-substitution on grids, and `Grid.reduced` the reduced form.

**No well-formed matrix makes an elimination fail**, whatever its scalars are: every position is
inside of the storage, and every divisor is an entry that was tested before. Both are part of the
equations with `.ok` on their right-hand side.
-/

namespace LinearSystems

variable {K : Type} [Scalar K] {r c : ℕ}

/-! ### Clearing a column -/

namespace Grid

/-- A row whose entry in a column is cancelled: zero is written there, and a multiple of the
source row is subtracted to the right of it. A row whose entry counts as zero is left alone. -/
def cancel (col : ℕ) (factor : K) (source row : ℕ → K) : ℕ → K := fun j =>
  if Scalar.isZero (row col) || j < col then row j
  else if j = col then Scalar.zero
  else Scalar.subMul (row j) (source j) factor

/-- The grid with a column cleared below the row of its pivot. -/
def clearBelow (f : Grid K) (pivot col : ℕ) : Grid K := fun i =>
  if pivot < i then cancel col (Scalar.div (f i col) (f pivot col)) (f pivot) (f i) else f i

/-- The grid with a column cleared above the row of its pivot, which is one. -/
def clearAbove (f : Grid K) (pivot col : ℕ) : Grid K := fun i =>
  if i < pivot then cancel col (f i col) (f pivot) (f i) else f i

theorem cancel_of_isZero {col : ℕ} {row : ℕ → K} (h : Scalar.isZero (row col) = true) (factor : K)
    (source : ℕ → K) : cancel col factor source row = row := by
  funext j
  simp [cancel, h]

/-- To the left of the column, nothing changes. -/
theorem cancel_of_lt {col j : ℕ} (h : j < col) (factor : K) (source row : ℕ → K) :
    cancel col factor source row j = row j := by
  simp [cancel, h]

end Grid

namespace DenseMatrix

/-- Writing zero and subtracting to the right of it cancels an entry. -/
theorem set_subtractMultiple_tabulate (f : Grid K) {k source col : ℕ} (hk : k < r)
    (hsource : source < r) (hne : source ≠ k) (hcol : col < c)
    (hnonzero : Scalar.isZero (f k col) = false) (factor : K) :
    ((tabulate r c f).set k col Scalar.zero >>= fun m =>
        m.subtractMultiple k source factor (col + 1))
      = .ok (tabulate r c (Function.update f k (Grid.cancel col factor (f source) (f k)))) := by
  rw [set_tabulate f hk hcol, ok_bind, subtractMultiple_tabulate _ hk hsource]
  refine congrArg Except.ok (tabulate_congr fun a _ b _ => ?_)
  rcases eq_or_ne a k with rfl | ha
  · -- the entry was not zero, so that `cancel` takes the branches that write
    simp only [Function.update_self, Grid.cancel, hnonzero, Bool.false_or, decide_eq_true_eq,
      true_and, hne, false_and, if_false]
    rcases Nat.lt_trichotomy b col with hlt | rfl | hgt
    · rw [if_neg (by omega), if_neg (by omega), if_pos hlt]
    · simp
    · rw [if_pos (by omega), if_neg (by omega), if_neg (by omega), if_neg (by omega)]
  · simp [ha]

end DenseMatrix

open DenseMatrix

/-! ### The forward pass -/

/-- The state of an elimination, with a grid in the place of the matrix. -/
structure Sweep (K : Type) where
  grid : Grid K
  rank : ℕ
  swaps : List RowSwap

namespace Sweep

/-- The elimination of a matrix of the given shape that has come to this state. -/
def toElimination (s : Sweep K) (r c : ℕ) : Elimination K :=
  ⟨tabulate r c s.grid, s.rank, s.swaps⟩

omit [Scalar K] in
@[simp]
theorem nrows_toElimination (s : Sweep K) : (s.toElimination r c).matrix.nrows = r := rfl

omit [Scalar K] in
@[simp]
theorem rank_toElimination (s : Sweep K) : (s.toElimination r c).rank = s.rank := rfl

/-- The first row, from the next pivot row on, with a non-zero entry in the column. -/
def pivotRow? (s : Sweep K) (r col : ℕ) : Option ℕ :=
  (List.range' s.rank (r - s.rank)).find? fun k => !Scalar.isZero (s.grid k col)

/-- The state after row `k` was made the next pivot row. -/
def bringUp (s : Sweep K) (col k : ℕ) : Sweep K :=
  { s with
    grid := fun i => s.grid (Equiv.swap s.rank k i)
    swaps := if k = s.rank then s.swaps else s.swaps ++ [⟨col, k, s.rank⟩] }

/-- The state after one more column. -/
def step (r : ℕ) (s : Sweep K) (col : ℕ) : Sweep K :=
  match s.pivotRow? r col with
  | none => s
  | some k =>
    let s := s.bringUp col k
    { s with grid := s.grid.clearBelow s.rank col, rank := s.rank + 1 }

/-- The state after the first `n` columns of a grid with `r` rows. -/
def after (r : ℕ) (f : Grid K) (n : ℕ) : Sweep K :=
  (List.range n).foldl (step r) ⟨f, 0, []⟩

@[simp]
theorem after_zero (r : ℕ) (f : Grid K) : after r f 0 = ⟨f, 0, []⟩ := rfl

theorem after_succ (r : ℕ) (f : Grid K) (n : ℕ) : after r f (n + 1) = (after r f n).step r n := by
  rw [after, List.range_succ, List.foldl_append]
  rfl

theorem pivotRow?_eq_none {s : Sweep K} {col : ℕ} :
    s.pivotRow? r col = none ↔
      ∀ k, s.rank ≤ k → k < r → Scalar.isZero (s.grid k col) = true := by
  simp only [pivotRow?, List.find?_range'_eq_none, Bool.not_not]
  exact forall_congr' fun k => ⟨fun h hk hr => h hk (by omega), fun h hk hr => h hk (by omega)⟩

theorem pivotRow?_eq_some {s : Sweep K} {col k : ℕ} (h : s.pivotRow? r col = some k) :
    s.rank ≤ k ∧ k < r ∧ Scalar.isZero (s.grid k col) = false := by
  obtain ⟨hnonzero, hmem, -⟩ := List.find?_range'_eq_some.1 h
  obtain ⟨hle, hlt⟩ := List.mem_range'_1.1 hmem
  exact ⟨hle, by omega, by simpa using hnonzero⟩

theorem step_of_none {s : Sweep K} {col : ℕ} (h : s.pivotRow? r col = none) : s.step r col = s := by
  rw [step, h]

theorem step_of_some {s : Sweep K} {col k : ℕ} (h : s.pivotRow? r col = some k) :
    s.step r col = ⟨(s.bringUp col k).grid.clearBelow s.rank col, s.rank + 1,
      (s.bringUp col k).swaps⟩ := by
  rw [step, h]
  rfl

/-- An exchange of two of the rows from `lo` on keeps to these rows. -/
theorem swap_mem_rows {lo a b i : ℕ} (ha : lo ≤ a ∧ a < r) (hb : lo ≤ b ∧ b < r)
    (hi : lo ≤ i ∧ i < r) : lo ≤ Equiv.swap a b i ∧ Equiv.swap a b i < r := by
  rw [Equiv.swap_apply_def]
  split_ifs
  · exact hb
  · exact ha
  · exact hi

/-- No column takes a pivot back. -/
theorem rank_le_rank_step (r : ℕ) (s : Sweep K) (col : ℕ) : s.rank ≤ (s.step r col).rank := by
  cases h : s.pivotRow? r col with
  | none => exact Nat.le_of_eq (congrArg rank (step_of_none h).symm)
  | some k =>
    rw [step_of_some h]
    exact Nat.le_succ s.rank

/-- Without rows to choose a pivot from, a column is passed over. -/
theorem step_of_le {s : Sweep K} (h : r ≤ s.rank) (col : ℕ) : s.step r col = s :=
  step_of_none (pivotRow?_eq_none.2 fun _ hk hr => absurd (Nat.le_trans h hk) (Nat.not_le.2 hr))

end Sweep

namespace Elimination

open Sweep (toElimination nrows_toElimination rank_toElimination)

theorem pivotRow_toElimination (s : Sweep K) {col : ℕ} (hcol : col < c) :
    (s.toElimination r c).pivotRow col = .ok (s.pivotRow? r col) :=
  findIndex_eq_ok fun k hk hlt => by
    simp only [nrows_toElimination, rank_toElimination] at hk hlt
    exact nonzeroAt_tabulate s.grid (by omega) hcol

theorem bringUp_toElimination (s : Sweep K) (col : ℕ) {k : ℕ} (hrank : s.rank < r) (hk : k < r) :
    (s.toElimination r c).bringUp col k = .ok ((s.bringUp col k).toElimination r c) := by
  rcases eq_or_ne k s.rank with rfl | hkr
  · simp [bringUp, Sweep.bringUp, toElimination]
  · rw [bringUp, rank_toElimination, if_neg hkr]
    simp only [toElimination, Sweep.bringUp, if_neg hkr]
    rw [swapRows_tabulate s.grid hrank hk, ok_bind, pure_eq_ok]

/-- A row below the pivot is cancelled; the pivot row has to be what it was. -/
theorem cancelBelow_tabulate {f g : Grid K} {pivot col k : ℕ} (hg : g pivot = f pivot)
    (hpivot : pivot < r) (hk : k < r) (hne : k ≠ pivot) (hcol : col < c)
    (hnonzero : Scalar.isZero (f pivot col) = false) :
    cancelBelow pivot col (tabulate r c g) k
      = .ok (tabulate r c (Function.update g k
          (Grid.cancel col (Scalar.div (g k col) (f pivot col)) (f pivot) (g k)))) := by
  rw [cancelBelow, get_tabulate g hk hcol, ok_bind]
  split_ifs with hzero
  · rw [Grid.cancel_of_isZero hzero, Function.update_eq_self, pure_eq_ok]
  · rw [get_tabulate g hpivot hcol, ok_bind, hg, Scalar.pivotQuotient_of_nonzero hnonzero, ok_bind,
      set_subtractMultiple_tabulate g hk hpivot hne.symm hcol (by simpa using hzero), hg]

theorem clearBelow_toElimination (s : Sweep K) {col : ℕ} (hrank : s.rank < r) (hcol : col < c)
    (hnonzero : Scalar.isZero (s.grid s.rank col) = false) :
    (s.toElimination r c).clearBelow col
      = .ok (toElimination ⟨s.grid.clearBelow s.rank col, s.rank + 1, s.swaps⟩ r c) := by
  -- the loop visits neither the pivot row nor anything outside of the matrix
  have hrows : ∀ k ∈ List.range' (s.rank + 1) (r - (s.rank + 1)), k < r ∧ k ≠ s.rank := by
    intro k hk
    obtain ⟨hle, hlt⟩ := List.mem_range'_1.1 hk
    omega
  simp only [clearBelow, toElimination, nrows_tabulate]
  rw [foldlM_rows_tabulate
    (fun _ row => Grid.cancel col (Scalar.div (row col) (s.grid s.rank col)) (s.grid s.rank) row)
    (fun g hg k hk hne => cancelBelow_tabulate hg hrank hk hne hcol hnonzero)
    List.nodup_range' hrows, ok_bind, pure_eq_ok]
  -- the rows that the loop visits are those below the pivot
  have hvisited : ∀ a < r, a ∈ List.range' (s.rank + 1) (r - (s.rank + 1)) ↔ s.rank < a := by
    intro a ha
    rw [List.mem_range'_1]
    omega
  congr 2
  refine tabulate_congr fun a ha b _ => ?_
  rw [Grid.clearBelow, if_congr (hvisited a ha) rfl rfl]

/-- One column of an elimination is one step of the sweep. -/
theorem step_toElimination (s : Sweep K) {col : ℕ} (hrank : s.rank < r) (hcol : col < c) :
    (s.toElimination r c).step col = .ok ((s.step r col).toElimination r c) := by
  rw [step, pivotRow_toElimination s hcol, ok_bind]
  cases hpivot : s.pivotRow? r col with
  | none => rw [Sweep.step_of_none hpivot, pure_eq_ok]
  | some k =>
    obtain ⟨hle, hk, hnonzero⟩ := Sweep.pivotRow?_eq_some hpivot
    -- the entry that was found is the pivot after the exchange
    have hswapped : Scalar.isZero ((s.bringUp col k).grid s.rank col) = false := by
      simpa [Sweep.bringUp] using hnonzero
    dsimp only
    rw [bringUp_toElimination s col hrank hk, ok_bind,
      clearBelow_toElimination (s.bringUp col k) hrank hcol hswapped, Sweep.step_of_some hpivot]
    rfl

theorem sweep_toElimination (count : ℕ) (s : Sweep K) {col : ℕ} (hcount : col + count ≤ c) :
    (s.toElimination r c).sweep col count
      = .ok (((List.range' col count).foldl (Sweep.step r) s).toElimination r c) := by
  induction count generalizing s col with
  | zero => rfl
  | succ count ih =>
    rw [sweep, List.range'_succ, List.foldl_cons, nrows_toElimination, rank_toElimination]
    rcases Nat.lt_or_ge s.rank r with hrank | hrank
    · rw [if_neg (Nat.not_le.2 hrank), step_toElimination s hrank (by omega), ok_bind,
        ih (s.step r col) (by omega)]
    · -- the remaining columns are passed over one by one
      have hidle : ∀ cols : List ℕ, cols.foldl (Sweep.step r) s = s := by
        intro cols
        induction cols with
        | nil => rfl
        | cons j cols ihcols => rw [List.foldl_cons, Sweep.step_of_le hrank, ihcols]
      rw [if_pos hrank, Sweep.step_of_le hrank, hidle]

/-- **An elimination is the sweep over all columns**, and never fails. -/
theorem ofMatrix_tabulate (f : Grid K) :
    ofMatrix (tabulate r c f) = .ok ((Sweep.after r f c).toElimination r c) := by
  have h := sweep_toElimination (r := r) c (⟨f, 0, []⟩ : Sweep K) (Nat.le_of_eq (Nat.zero_add c))
  rw [← List.range_eq_range'] at h
  exact h

end Elimination

end LinearSystems
