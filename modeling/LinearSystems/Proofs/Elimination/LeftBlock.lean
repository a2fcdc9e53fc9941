import LinearSystems.Proofs.Binary.Scalar
import LinearSystems.Proofs.Elimination.EchelonForm

/-!
# The left block of an echelon form

Reduction is local to columns: the left block of the echelon form of a matrix counts as the same as
the echelon form of its left block, and so does that of the reduced form. Two runs on matrices of
different widths are compared. In the left columns they keep to the same rows up to the rank of the
left block; what stands there in the rows behind is zero for both, though not the same zero, because
the wide run goes on to exchange and to cancel these rows (`SameLeft`).

* The forward pass of the left block is the beginning of the wide one, and each later column of the
  wide one keeps the relation (`SameLeft.step`, `SameLeft.after`).
* Back-substitution keeps it row by row. A row with its leading entry in a left column has it in
  both runs and does the same to both; any other row is zero on the left and is passed over by the
  narrow run, and it changes nothing on the left in the wide one (`SameLeft.reduceRow`).
* So the pivots of the wide run in the left columns are those of the left block
  (`Sweep.pivot_lt_iff`).

No law of the arithmetic is used but that zero counts as zero.
-/

namespace LinearSystems

variable {K : Type} [Scalar K] {r c n rank : ℕ} {f g : Grid K}

/-- Within the first `nrows` rows and `ncols` columns, the grid `f` of a narrow run and the grid `g`
of a wide run have the same rows up to `rank`, and all other rows count as zero in both. -/
structure SameLeft (f g : Grid K) (nrows ncols rank : ℕ) : Prop where
  agree : ∀ i < rank, ∀ j < ncols, f i j = g i j
  zero_narrow : ∀ i, rank ≤ i → i < nrows → ∀ j < ncols, Scalar.isZero (f i j) = true
  zero_wide : ∀ i, rank ≤ i → i < nrows → ∀ j < ncols, Scalar.isZero (g i j) = true

/-! ### Back-substitution in one row -/

namespace Grid

/-- A leading entry within a width is found in any other row that agrees with the row there. -/
theorem leading?_of_agree {i j : ℕ} (hcn : c ≤ n) (hagree : ∀ b < c, f i b = g i b)
    (h : f.leading? c i = some j) : g.leading? n i = some j := by
  obtain ⟨hj, hnonzero, hleft⟩ := leading?_eq_some.1 h
  refine leading?_eq_some.2 ⟨hj.trans_le hcn, ?_, fun b hb => ?_⟩
  · rw [← hagree j hj]
    exact hnonzero
  · rw [← hagree b (hb.trans hj)]
    exact hleft b hb

/-- Within a width, the reduction of a row at its leading column reads nothing outside of it. -/
theorem normalizeRow_clearAbove_congr {rank i j : ℕ} (hi : i < rank) (hj : j < c)
    (h : ∀ k < rank, ∀ b < c, f k b = g k b) {k b : ℕ} (hk : k < rank) (hb : b < c) :
    (f.normalizeRow i j).clearAbove i j k b = (g.normalizeRow i j).clearAbove i j k b := by
  have hnormalized : ∀ k < rank, ∀ b < c, f.normalizeRow i j k b = g.normalizeRow i j k b := by
    intro k hk b hb
    rcases eq_or_ne k i with rfl | hne
    · simp only [normalizeRow, h k hk j hj]
      split_ifs
      · exact h k hk b hb
      · simp only [Function.update_self, h k hk b hb]
    · rw [normalizeRow_of_ne hne, normalizeRow_of_ne hne, h k hk b hb]
  simp only [clearAbove]
  split_ifs
  · simp only [cancel, hnormalized k hk b hb, hnormalized k hk j hj, hnormalized i hi b hb]
  · exact hnormalized k hk b hb

/-- A row that counts as zero within a width changes nothing there. -/
theorem reduceRow_of_isZero_left {i : ℕ} (hzero : ∀ j < c, Scalar.isZero (f i j) = true)
    (n k : ℕ) {b : ℕ} (hb : b < c) : f.reduceRow n i k b = f k b := by
  rw [reduceRow]
  cases hlead : f.leading? n i with
  | none => rfl
  | some j =>
    -- the row begins to the right, and nothing to the left of that is touched
    have hbj : b < j := by
      obtain ⟨-, hnonzero, -⟩ := leading?_eq_some.1 hlead
      by_contra hle
      rw [hzero j (by omega)] at hnonzero
      exact Bool.noConfusion hnonzero
    have hnormalized : f.normalizeRow i j k b = f k b := by
      rcases eq_or_ne k i with rfl | hne
      · exact normalizeRow_of_lt f k hbj
      · rw [normalizeRow_of_ne hne]
    dsimp only
    rw [clearAbove]
    split_ifs
    · rw [cancel_of_lt hbj, hnormalized]
    · exact hnormalized

end Grid

namespace SameLeft

/-! ### The forward pass -/

/-- One more column to the right keeps the relation: the rows up to the rank are behind the sweep,
and what it does to the others on the left is to exchange them. -/
theorem step {s : Sweep K} (h : SameLeft f s.grid r c rank) (hrank : rank ≤ s.rank)
    (hcn : c ≤ n) : SameLeft f (s.step r n).grid r c rank := by
  cases hpivot : s.pivotRow? r n with
  | none =>
    rw [Sweep.step_of_none hpivot]
    exact h
  | some k =>
    obtain ⟨hk, hkr, -⟩ := Sweep.pivotRow?_eq_some hpivot
    rw [Sweep.step_of_some hpivot]
    dsimp only
    -- to the left of the column only the exchange is seen
    have hleft : ∀ i, ∀ j < c, ((s.bringUp n k).grid.clearBelow s.rank n) i j
        = s.grid (Equiv.swap s.rank k i) j := by
      intro i j hj
      rw [Grid.clearBelow]
      split_ifs
      · exact Grid.cancel_of_lt (hj.trans_le hcn) _ _ _
      · rfl
    refine ⟨fun i hi j hj => ?_, h.zero_narrow, fun i hi hr j hj => ?_⟩
    · rw [hleft i j hj, Equiv.swap_apply_of_ne_of_ne (by omega) (by omega)]
      exact h.agree i hi j hj
    · obtain ⟨hle, hlt⟩ := Sweep.swap_mem_rows ⟨hrank, hk.trans_lt hkr⟩ ⟨hrank.trans hk, hkr⟩
        ⟨hi, hr⟩
      rw [hleft i j hj]
      exact h.zero_wide _ hle hlt j hj

/-- **The forward pass keeps its left block**: from the column on where that ends, the rank grows
and the relation to the state reached there is kept. -/
theorem after [ZeroCountsAsZero K] (r : ℕ) (f : Grid K) (hcn : c ≤ n) :
    (Sweep.after r f c).rank ≤ (Sweep.after r f n).rank ∧
      SameLeft (Sweep.after r f c).grid (Sweep.after r f n).grid r c (Sweep.after r f c).rank := by
  induction n, hcn using Nat.le_induction with
  | base =>
    obtain ⟨pivot, h⟩ := Sweep.exists_staircase r f c
    exact ⟨le_rfl, fun _ _ _ _ => rfl, h.zero_below, h.zero_below⟩
  | succ n hcn ih =>
    obtain ⟨hrank, hsame⟩ := ih
    rw [Sweep.after_succ]
    exact ⟨hrank.trans (Sweep.rank_le_rank_step r _ n), hsame.step hrank hcn⟩

/-! ### Back-substitution -/

/-- One row of back-substitution in both runs keeps the relation. -/
theorem reduceRow (h : SameLeft f g r c rank) (hcn : c ≤ n) {i : ℕ} (hi : i < r) :
    SameLeft (f.reduceRow c i) (g.reduceRow n i) r c rank := by
  cases hlead : f.leading? c i with
  | none =>
    -- the row is zero on the left, in both runs
    have hzero := Grid.leading?_eq_none.1 hlead
    have hzero' : ∀ j < c, Scalar.isZero (g i j) = true := by
      intro j hj
      rcases Nat.lt_or_ge i rank with hrank | hrank
      · rw [← h.agree i hrank j hj]
        exact hzero j hj
      · exact h.zero_wide i hrank hi j hj
    refine ⟨fun k hk b hb => ?_, fun k hk hr b hb => ?_, fun k hk hr b hb => ?_⟩
    · rw [Grid.reduceRow_of_isZero_left hzero c k hb, Grid.reduceRow_of_isZero_left hzero' n k hb]
      exact h.agree k hk b hb
    · rw [Grid.reduceRow_of_isZero_left hzero c k hb]
      exact h.zero_narrow k hk hr b hb
    · rw [Grid.reduceRow_of_isZero_left hzero' n k hb]
      exact h.zero_wide k hk hr b hb
  | some j =>
    obtain ⟨hj, hnonzero, -⟩ := Grid.leading?_eq_some.1 hlead
    have hrank : i < rank := by
      by_contra hrank
      rw [h.zero_narrow i (Nat.le_of_not_lt hrank) hi j hj] at hnonzero
      exact Bool.noConfusion hnonzero
    have hlead' := Grid.leading?_of_agree hcn (h.agree i hrank) hlead
    refine ⟨fun k hk b hb => ?_, fun k hk hr b hb => ?_, fun k hk hr b hb => ?_⟩
    · simp only [Grid.reduceRow, hlead, hlead']
      exact Grid.normalizeRow_clearAbove_congr hrank hj h.agree hk hb
    · rw [Grid.reduceRow_of_lt f c (hrank.trans_le hk)]
      exact h.zero_narrow k hk hr b hb
    · rw [Grid.reduceRow_of_lt g n (hrank.trans_le hk)]
      exact h.zero_wide k hk hr b hb

/-- **Back-substitution keeps the relation**, row by row. -/
theorem reduceRows (h : SameLeft f g r c rank) (hcn : c ≤ n) {count : ℕ} (hcount : count ≤ r) :
    SameLeft (f.reduceRows c count) (g.reduceRows n count) r c rank := by
  induction count generalizing f g with
  | zero => exact h
  | succ count ih => exact ih (h.reduceRow hcn hcount) (Nat.le_of_succ_le hcount)

/-- Within the left columns, related grids count as the same. -/
theorem equal [ReflexiveEquality K] [ZerosAreEqual K] (h : SameLeft f g r c rank) :
    (DenseMatrix.tabulate r c g).equal (DenseMatrix.tabulate r c f) = true := by
  refine DenseMatrix.equal_tabulate.2 fun i hi j hj => ?_
  rcases Nat.lt_or_ge i rank with hrank | hrank
  · rw [h.agree i hrank j hj]
    exact equal_self _
  · exact equal_of_isZero (h.zero_wide i hrank hi j hj) (h.zero_narrow i hrank hi j hj)

end SameLeft

/-! ### The pivots in the left columns -/

/-- **The pivots in the left columns are those of the left block**: the first ones of the wide run,
as many as the rank of the left block. -/
theorem Sweep.pivot_lt_iff [ZeroCountsAsZero K] {pivot : ℕ → ℕ} (hcn : c ≤ n)
    (h : Staircase (after r f n).grid r n (after r f n).rank pivot) {i : ℕ}
    (hi : i < (after r f n).rank) : pivot i < c ↔ i < (after r f c).rank := by
  obtain ⟨-, hsame⟩ := SameLeft.after r f hcn
  obtain ⟨narrow, hnarrow⟩ := exists_staircase r f c
  constructor
  · -- a row behind the rank of the left block is zero on the left
    intro hlt
    by_contra hrank
    have hzero := hsame.zero_wide i (Nat.le_of_not_lt hrank) (hi.trans_le h.rank_le) _ hlt
    rw [h.nonzero i hi] at hzero
    exact Bool.noConfusion hzero
  · -- and a row above it has a pivot on the left, which the wide run keeps
    intro hrank
    by_contra hright
    have hlt := hnarrow.pivot_lt i hrank
    have hzero := h.zero_left i hi (narrow i) (hlt.trans_le (Nat.le_of_not_lt hright))
    rw [← hsame.agree i hrank _ hlt, hnarrow.nonzero i hrank] at hzero
    exact Bool.noConfusion hzero

/-- Their number is the rank of the left block. -/
theorem Sweep.countP_pivots [ZeroCountsAsZero K] {pivot : ℕ → ℕ} (hcn : c ≤ n)
    (h : Staircase (after r f n).grid r n (after r f n).rank pivot) :
    ((List.range (after r f n).rank).map pivot).countP (· < c) = (after r f c).rank := by
  obtain ⟨hle, -⟩ := SameLeft.after r f hcn
  obtain ⟨m, hm⟩ := Nat.exists_eq_add_of_le hle
  have hcount : ∀ i ∈ List.range (after r f n).rank,
      ((fun j => decide (j < c)) ∘ pivot) i = true ↔ decide (i < (after r f c).rank) = true :=
    fun i hi => by simpa using pivot_lt_iff hcn h (List.mem_range.1 hi)
  have hfirst : (List.range (after r f c).rank).countP (· < (after r f c).rank)
      = (after r f c).rank := by
    rw [List.countP_eq_length.2 fun i hi => decide_eq_true (List.mem_range.1 hi),
      List.length_range]
  have hothers : ((List.range m).map ((after r f c).rank + ·)).countP (· < (after r f c).rank)
      = 0 := by
    rw [List.countP_map, List.countP_eq_zero]
    simp
  rw [List.countP_map, List.countP_congr hcount, hm, List.range_add, List.countP_append, hfirst,
    hothers, Nat.add_zero]

namespace DenseMatrix

/-- **Reduction is local to columns**, for scalars without laws. At any column, the left block of
the echelon form of a matrix counts as the same as the echelon form of its left block, the left
block of the reduced form as the reduced form of its left block, and the rank of the left block is
the number of pivot columns in it. -/
theorem echelonForms_of_left_block [ZeroCountsAsZero K] [ReflexiveEquality K] [ZerosAreEqual K]
    {m : DenseMatrix K} (h : m.WellFormed) {col : ℕ} (hcol : col ≤ m.ncols) :
    ∃ halves, m.splitAtCol col = .ok halves ∧
      (∃ echelon parts leftEchelon, m.rowEchelonForm.outcome = .ok echelon ∧
        echelon.splitAtCol col = .ok parts ∧
        halves.1.rowEchelonForm.outcome = .ok leftEchelon ∧
        parts.1.equal leftEchelon = true) ∧
      (∃ reduced parts leftReduced, m.reducedRowEchelonForm.outcome = .ok reduced ∧
        reduced.splitAtCol col = .ok parts ∧
        halves.1.reducedRowEchelonForm.outcome = .ok leftReduced ∧
        parts.1.equal leftReduced = true) ∧
      ∃ pivots, m.pivotColumns.outcome = .ok pivots ∧
        halves.1.rank.outcome = .ok (pivots.countP (· < col)) := by
  obtain ⟨r, c, f, rfl⟩ : ∃ r c, ∃ f : Grid K, m = tabulate r c f :=
    ⟨_, _, _, eq_tabulate_entry h rfl rfl⟩
  rw [ncols_tabulate] at hcol
  have hsplit : ∀ g : Grid K, (tabulate r c g).splitAtCol col
      = .ok (tabulate r col g, tabulate r (c - col) fun i j => g i (col + j)) := fun g =>
    splitAtCol_tabulate g hcol
  obtain ⟨-, hforward⟩ := SameLeft.after r f hcol
  obtain ⟨pivot, hpivot⟩ := Sweep.exists_staircase r f c
  refine ⟨_, hsplit f, ⟨_, _, _, rowEchelonForm_tabulate f, hsplit _, rowEchelonForm_tabulate f,
    hforward.equal⟩, ⟨_, _, _, reducedRowEchelonForm_tabulate f, hsplit _,
    reducedRowEchelonForm_tabulate f, (hforward.reduceRows hcol le_rfl).equal⟩, _,
    pivotColumns_tabulate hpivot, ?_⟩
  rw [rank_tabulate, Sweep.countP_pivots hcol hpivot]

open Binary in
/-- A pivot in the last column fetches the last row up, which exchanges zeros of different signs on
the left. The left block has one pivot, and a NaN to the right of it. -/
theorem echelonForms_of_left_block_of_nan :
    let m : DenseMatrix (Binary binary64) := ⟨3, 3, #[one, nan, one, Binary.zero, Binary.zero,
      Binary.zero, Binary.zero, Binary.zero.neg, one]⟩
    let left : DenseMatrix (Binary binary64) :=
      ⟨3, 2, #[one, nan, Binary.zero, Binary.zero, Binary.zero, Binary.zero.neg]⟩
    ∃ echelon parts leftEchelon pivots, m.rowEchelonForm.outcome = .ok echelon ∧
      echelon.splitAtCol 2 = .ok parts ∧ left.rowEchelonForm.outcome = .ok leftEchelon ∧
      parts.1.equal leftEchelon = true ∧ m.pivotColumns.outcome = .ok pivots ∧
      pivots.countP (· < 2) = 1 := by
  intro m left
  obtain ⟨halves, hsplit, ⟨echelon, parts, leftEchelon, hechelon, hparts, hleft, hequal⟩, -, pivots,
    hpivots, hrank⟩ := echelonForms_of_left_block (m := m) (by decide) (show 2 ≤ 3 by decide)
  have hhalves : m.splitAtCol 2 = .ok (left, ⟨3, 1, #[one, Binary.zero, one]⟩) := by
    simp only [m, splitAtCol, rowChunks, chunks, List.take, List.drop]
    rfl
  obtain rfl := Except.ok.inj (hsplit.symm.trans hhalves)
  have hone : left.rank.outcome = .ok 1 := by decide +kernel
  exact ⟨echelon, parts, leftEchelon, pivots, hechelon, hparts, hleft, hequal, hpivots,
    Except.ok.inj (hrank.symm.trans hone)⟩

end DenseMatrix

end LinearSystems
