import LinearSystems.Proofs.Elimination.BackSubstitution
import Mathlib.Order.Nat

/-!
# The staircase

What an elimination establishes, for scalars without laws. `Staircase f nrows ncols rank pivot`
says that the first `rank` rows of a grid have their leading entries in the columns `pivot 0`,
`pivot 1`, …, from left to right, and that the rows below count as zero. Of the arithmetic only
two facts are used, each where it is needed: zero counts as zero (`ZeroCountsAsZero`), because an
elimination writes zeros, and one does not (`OneIsNonzero`), because back-substitution writes ones.
(That one counts as one, `OneCountsAsOne`, matters to those who test for it.)
Nothing is said about entries above or to the right of a pivot, which may be anything.

The invariant holds before the first column, one column extends it (`Staircase.step_of_none`,
`Staircase.step_of_some`), and so it holds after all of them. Back-substitution moves no pivot.
-/

namespace LinearSystems

variable {K : Type} [Scalar K] {r c : ℕ}

/-- The zero of the scalars counts as zero. -/
class ZeroCountsAsZero (K : Type) [Scalar K] : Prop where
  isZero_zero : Scalar.isZero (Scalar.zero : K) = true

/-- The one of the scalars does not count as zero. -/
class OneIsNonzero (K : Type) [Scalar K] : Prop where
  isZero_one : Scalar.isZero (Scalar.one : K) = false

/-- The one of the scalars counts as one. -/
class OneCountsAsOne (K : Type) [Scalar K] : Prop where
  isOne_one : Scalar.isOne (Scalar.one : K) = true

export ZeroCountsAsZero (isZero_zero)
export OneIsNonzero (isZero_one)
export OneCountsAsOne (isOne_one)

/-- Within the first `nrows` rows and `ncols` columns, the leading entry of row `i` stands in
column `pivot i` if `i < rank`, and the other rows count as zero. -/
structure Staircase (f : Grid K) (nrows ncols rank : ℕ) (pivot : ℕ → ℕ) : Prop where
  rank_le : rank ≤ nrows
  pivot_lt : ∀ i < rank, pivot i < ncols
  pivot_lt_pivot : ∀ i k, i < k → k < rank → pivot i < pivot k
  nonzero : ∀ i < rank, Scalar.isZero (f i (pivot i)) = false
  zero_left : ∀ i < rank, ∀ j < pivot i, Scalar.isZero (f i j) = true
  zero_below : ∀ i, rank ≤ i → i < nrows → ∀ j < ncols, Scalar.isZero (f i j) = true

/-- A cancelled entry counts as zero: there zero was written, or it counted as zero before. -/
theorem Grid.isZero_cancel [ZeroCountsAsZero K] (col : ℕ) (factor : K) (source row : ℕ → K) :
    Scalar.isZero (Grid.cancel col factor source row col) = true := by
  rw [Grid.cancel]
  split_ifs with hkept hcol
  · simpa using hkept
  · exact isZero_zero
  · exact absurd rfl hcol

/-- A cleared column counts as zero below its pivot. -/
theorem Grid.isZero_clearBelow [ZeroCountsAsZero K] (f : Grid K) {i row : ℕ} (hi : row < i)
    (col : ℕ) : Scalar.isZero (f.clearBelow row col i col) = true := by
  rw [Grid.clearBelow, if_pos hi]
  exact Grid.isZero_cancel _ _ _ _

namespace Staircase

variable {f : Grid K} {rank : ℕ} {pivot : ℕ → ℕ}

/-! ### Reading a staircase -/

/-- The pivots move to the right by at least one column a row. -/
theorem le_pivot (h : Staircase f r c rank pivot) {i : ℕ} (hi : i < rank) : i ≤ pivot i := by
  induction i with
  | zero => exact Nat.zero_le _
  | succ i ih =>
    exact (ih (Nat.lt_of_succ_lt hi)).trans_lt (h.pivot_lt_pivot i (i + 1) (Nat.lt_succ_self i) hi)

theorem rank_le_ncols (h : Staircase f r c rank pivot) : rank ≤ c := by
  rcases Nat.eq_zero_or_pos rank with rfl | hpos
  · exact Nat.zero_le c
  · have hlast : rank - 1 < rank := Nat.sub_lt hpos Nat.one_pos
    have hle := h.le_pivot hlast
    have hlt := h.pivot_lt _ hlast
    omega

/-- Different rows have their pivots in different columns. -/
theorem pivot_inj (h : Staircase f r c rank pivot) {i k : ℕ} (hi : i < rank) (hk : k < rank)
    (heq : pivot i = pivot k) : i = k := by
  rcases Nat.lt_trichotomy i k with hlt | rfl | hgt
  · exact absurd heq (h.pivot_lt_pivot i k hlt hk).ne
  · rfl
  · exact absurd heq (h.pivot_lt_pivot k i hgt hi).ne'

/-- Whatever stands below a pivot counts as zero. -/
theorem zero_under (h : Staircase f r c rank pivot) {i k : ℕ} (hik : i < k) (hk : k < r)
    (hi : i < rank) : Scalar.isZero (f k (pivot i)) = true := by
  rcases Nat.lt_or_ge k rank with hrank | hrank
  · exact h.zero_left k hrank _ (h.pivot_lt_pivot i k hik hrank)
  · exact h.zero_below k hrank hk _ (h.pivot_lt i hi)

/-- Only which entries count as zero matters, and only within the shape. -/
theorem congr {g : Grid K} (h : Staircase f r c rank pivot)
    (hzero : ∀ i < r, ∀ j < c, Scalar.isZero (g i j) = Scalar.isZero (f i j)) :
    Staircase g r c rank pivot where
  rank_le := h.rank_le
  pivot_lt := h.pivot_lt
  pivot_lt_pivot := h.pivot_lt_pivot
  nonzero i hi := by
    rw [hzero i (hi.trans_le h.rank_le) _ (h.pivot_lt i hi)]
    exact h.nonzero i hi
  zero_left i hi j hj := by
    rw [hzero i (hi.trans_le h.rank_le) j (hj.trans (h.pivot_lt i hi))]
    exact h.zero_left i hi j hj
  zero_below i hi hr j hj := by
    rw [hzero i hr j hj]
    exact h.zero_below i hi hr j hj

theorem leading?_of_lt (h : Staircase f r c rank pivot) {i : ℕ} (hi : i < rank) :
    Grid.leading? f c i = some (pivot i) :=
  Grid.leading?_eq_some.2 ⟨h.pivot_lt i hi, h.nonzero i hi, h.zero_left i hi⟩

theorem leading?_of_le (h : Staircase f r c rank pivot) {i : ℕ} (hi : rank ≤ i) (hr : i < r) :
    Grid.leading? f c i = none :=
  Grid.leading?_eq_none.2 (h.zero_below i hi hr)

/-! ### The forward pass -/

/-- Before the first column there are no pivots. -/
theorem start (f : Grid K) (r : ℕ) (pivot : ℕ → ℕ) : Staircase f r 0 0 pivot where
  rank_le := Nat.zero_le r
  pivot_lt i hi := absurd hi (Nat.not_lt_zero i)
  pivot_lt_pivot _ k _ hk := absurd hk (Nat.not_lt_zero k)
  nonzero i hi := absurd hi (Nat.not_lt_zero i)
  zero_left i hi := absurd hi (Nat.not_lt_zero i)
  zero_below _ _ _ j hj := absurd hj (Nat.not_lt_zero j)

/-- A column without a pivot leaves everything as it is. -/
theorem step_of_none {s : Sweep K} {n : ℕ} (h : Staircase s.grid r n s.rank pivot)
    (hnone : s.pivotRow? r n = none) : Staircase s.grid r (n + 1) s.rank pivot where
  rank_le := h.rank_le
  pivot_lt i hi := Nat.lt_succ_of_lt (h.pivot_lt i hi)
  pivot_lt_pivot := h.pivot_lt_pivot
  nonzero := h.nonzero
  zero_left := h.zero_left
  zero_below i hi hr j hj := by
    rcases Nat.lt_succ_iff_lt_or_eq.1 hj with hlt | rfl
    · exact h.zero_below i hi hr j hlt
    · exact Sweep.pivotRow?_eq_none.1 hnone i hi hr

/-- The exchange of rows permutes the rows that are zero so far. -/
theorem bringUp {s : Sweep K} {n k : ℕ} (h : Staircase s.grid r n s.rank pivot)
    (hk : s.rank ≤ k) (hkr : k < r) :
    Staircase (s.bringUp n k).grid r n s.rank pivot := by
  -- both rows that change places are behind the staircase so far
  have habove : ∀ i < s.rank, Equiv.swap s.rank k i = i := fun i hi =>
    Equiv.swap_apply_of_ne_of_ne hi.ne (hi.trans_le hk).ne
  refine ⟨h.rank_le, h.pivot_lt, h.pivot_lt_pivot, fun i hi => ?_, fun i hi j hj => ?_,
    fun i hi hr j hj => ?_⟩
  · simp only [Sweep.bringUp, habove i hi]
    exact h.nonzero i hi
  · simp only [Sweep.bringUp, habove i hi]
    exact h.zero_left i hi j hj
  · obtain ⟨hle, hlt⟩ := Sweep.swap_mem_rows ⟨le_rfl, hk.trans_lt hkr⟩ ⟨hk, hkr⟩ ⟨hi, hr⟩
    exact h.zero_below _ hle hlt j hj

/-- A staircase is extended by a row that has its leading entry in the next column, if whatever
stands below that entry counts as zero. -/
theorem extend {n : ℕ} (h : Staircase f r n rank pivot) (hr : rank < r)
    (hnonzero : Scalar.isZero (f rank n) = false)
    (hbelow : ∀ i, rank < i → i < r → Scalar.isZero (f i n) = true) :
    Staircase f r (n + 1) (rank + 1) (Function.update pivot rank n) := by
  have hold : ∀ i < rank, Function.update pivot rank n i = pivot i := fun i hi =>
    Function.update_of_ne hi.ne _ _
  have hnew : Function.update pivot rank n rank = n := Function.update_self rank n pivot
  refine ⟨hr, fun i hi => ?_, fun i k hik hk => ?_, fun i hi => ?_, fun i hi j hj => ?_,
    fun i hi hir j hj => ?_⟩
  · rcases Nat.lt_succ_iff_lt_or_eq.1 hi with hlt | rfl
    · rw [hold i hlt]
      exact Nat.lt_succ_of_lt (h.pivot_lt i hlt)
    · rw [hnew]
      exact Nat.lt_succ_self n
  · rw [hold i (by omega)]
    rcases Nat.lt_succ_iff_lt_or_eq.1 hk with hlt | rfl
    · rw [hold k hlt]
      exact h.pivot_lt_pivot i k hik hlt
    · rw [hnew]
      exact h.pivot_lt i hik
  · rcases Nat.lt_succ_iff_lt_or_eq.1 hi with hlt | rfl
    · rw [hold i hlt]
      exact h.nonzero i hlt
    · rw [hnew]
      exact hnonzero
  · rcases Nat.lt_succ_iff_lt_or_eq.1 hi with hlt | rfl
    · rw [hold i hlt] at hj
      exact h.zero_left i hlt j hj
    · -- the new row was one of the zero rows so far
      rw [hnew] at hj
      exact h.zero_below _ le_rfl hr j hj
  · rcases Nat.lt_succ_iff_lt_or_eq.1 hj with hlt | rfl
    · exact h.zero_below i (Nat.le_of_succ_le hi) hir j hlt
    · exact hbelow i (Nat.lt_of_succ_le hi) hir

/-- Clearing a column below the staircase so far changes no row of the staircase, and the rows
below remain zero to the left of the column. -/
theorem clearBelow {n : ℕ} (h : Staircase f r n rank pivot) :
    Staircase (f.clearBelow rank n) r n rank pivot := by
  have habove : ∀ i < rank, f.clearBelow rank n i = f i := fun i hi => by
    rw [Grid.clearBelow, if_neg (Nat.lt_asymm hi)]
  have hleft : ∀ i, ∀ j < n, f.clearBelow rank n i j = f i j := by
    intro i j hj
    rw [Grid.clearBelow]
    split_ifs with hi
    · exact Grid.cancel_of_lt hj _ _ _
    · rfl
  refine ⟨h.rank_le, h.pivot_lt, h.pivot_lt_pivot, fun i hi => ?_, fun i hi j hj => ?_,
    fun i hi hr j hj => ?_⟩
  · rw [habove i hi]
    exact h.nonzero i hi
  · rw [habove i hi]
    exact h.zero_left i hi j hj
  · rw [hleft i j hj]
    exact h.zero_below i hi hr j hj

/-- A column with a pivot adds one row to the staircase. -/
theorem step_of_some [ZeroCountsAsZero K] {s : Sweep K} {n k : ℕ}
    (h : Staircase s.grid r n s.rank pivot) (hsome : s.pivotRow? r n = some k) :
    Staircase (s.step r n).grid r (n + 1) (s.rank + 1) (Function.update pivot s.rank n) := by
  obtain ⟨hle, hkr, hnonzero⟩ := Sweep.pivotRow?_eq_some hsome
  have hcleared := (h.bringUp hle hkr).clearBelow
  have hpivot : Scalar.isZero ((s.bringUp n k).grid.clearBelow s.rank n s.rank n) = false := by
    rw [Grid.clearBelow, if_neg (Nat.lt_irrefl s.rank)]
    simpa [Sweep.bringUp] using hnonzero
  rw [Sweep.step_of_some hsome]
  exact hcleared.extend (hle.trans_lt hkr) hpivot fun i hi _ => Grid.isZero_clearBelow _ hi n

end Staircase

/-- **The forward pass builds a staircase**, one column at a time. -/
theorem Sweep.exists_staircase [ZeroCountsAsZero K] (r : ℕ) (f : Grid K) (n : ℕ) :
    ∃ pivot, Staircase (Sweep.after r f n).grid r n (Sweep.after r f n).rank pivot := by
  induction n with
  | zero => exact ⟨id, Staircase.start f r id⟩
  | succ n ih =>
    obtain ⟨pivot, h⟩ := ih
    rw [after_succ]
    cases hpivot : (after r f n).pivotRow? r n with
    | none =>
      rw [step_of_none hpivot]
      exact ⟨pivot, h.step_of_none hpivot⟩
    | some k =>
      have hnew := h.step_of_some hpivot
      have hrank : ((after r f n).step r n).rank = (after r f n).rank + 1 := by
        rw [step_of_some hpivot]
      rw [← hrank] at hnew
      exact ⟨_, hnew⟩

/-! ### Back-substitution -/

namespace Staircase

variable {f : Grid K} {rank : ℕ} {pivot : ℕ → ℕ}

/-- A row with a pivot is reduced in that column. -/
theorem reduceRow_of_lt (h : Staircase f r c rank pivot) {i : ℕ} (hi : i < rank) :
    f.reduceRow c i = (f.normalizeRow i (pivot i)).clearAbove i (pivot i) := by
  rw [Grid.reduceRow, h.leading?_of_lt hi]

/-- A zero row is left alone. -/
theorem reduceRow_of_le (h : Staircase f r c rank pivot) {i : ℕ} (hi : rank ≤ i) (hr : i < r) :
    f.reduceRow c i = f := by
  rw [Grid.reduceRow, h.leading?_of_le hi hr]

/-- Clearing a column above its pivot changes no row at or to the left of the row's own pivot. -/
theorem clearAbove_of_le (h : Staircase f r c rank pivot) {i k j : ℕ} (hi : i < rank)
    (hj : j ≤ pivot k) : f.clearAbove i (pivot i) k j = f k j := by
  rw [Grid.clearAbove]
  split_ifs with hki
  · exact Grid.cancel_of_lt (hj.trans_lt (h.pivot_lt_pivot k i hki hi)) _ _ _
  · rfl

/-- So it keeps the staircase. -/
theorem clearAbove (h : Staircase f r c rank pivot) {i : ℕ} (hi : i < rank) :
    Staircase (f.clearAbove i (pivot i)) r c rank pivot := by
  refine ⟨h.rank_le, h.pivot_lt, h.pivot_lt_pivot, fun k hk => ?_, fun k hk j hj => ?_,
    fun k hk hr j hj => ?_⟩
  · rw [h.clearAbove_of_le hi (Nat.le_refl _)]
    exact h.nonzero k hk
  · rw [h.clearAbove_of_le hi hj.le]
    exact h.zero_left k hk j hj
  · rw [Grid.clearAbove, if_neg (by omega)]
    exact h.zero_below k hk hr j hj

variable [OneIsNonzero K]

theorem normalizeRow (h : Staircase f r c rank pivot) {i : ℕ} (hi : i < rank) :
    Staircase (f.normalizeRow i (pivot i)) r c rank pivot := by
  refine ⟨h.rank_le, h.pivot_lt, h.pivot_lt_pivot, fun k hk => ?_, fun k hk j hj => ?_,
    fun k hk hr j hj => ?_⟩
  · rcases eq_or_ne k i with rfl | hki
    · -- a pivot that counts as one is left alone, any other is replaced by one
      rcases Grid.normalizeRow_pivot f k (pivot k) with ⟨-, hsame⟩ | hone
      · rw [hsame]
        exact h.nonzero k hk
      · rw [hone]
        exact isZero_one
    · rw [Grid.normalizeRow_of_ne hki]
      exact h.nonzero k hk
  · rcases eq_or_ne k i with rfl | hki
    · rw [Grid.normalizeRow_of_lt f k hj]
      exact h.zero_left k hk j hj
    · rw [Grid.normalizeRow_of_ne hki]
      exact h.zero_left k hk j hj
  · rw [Grid.normalizeRow_of_ne (by omega)]
    exact h.zero_below k hk hr j hj

theorem reduceRow (h : Staircase f r c rank pivot) {i : ℕ} (hr : i < r) :
    Staircase (f.reduceRow c i) r c rank pivot := by
  rcases Nat.lt_or_ge i rank with hi | hi
  · rw [h.reduceRow_of_lt hi]
    exact (h.normalizeRow hi).clearAbove hi
  · rw [h.reduceRow_of_le hi hr]
    exact h

/-- **Back-substitution moves no pivot.** -/
theorem reduceRows {count : ℕ} (h : Staircase f r c rank pivot) (hcount : count ≤ r) :
    Staircase (f.reduceRows c count) r c rank pivot := by
  induction count generalizing f with
  | zero => exact h
  | succ count ih => exact ih (h.reduceRow hcount) (Nat.le_of_succ_le hcount)

end Staircase

end LinearSystems
