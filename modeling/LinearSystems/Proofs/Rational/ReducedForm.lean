import LinearSystems.Proofs.Rational.Products
import LinearSystems.Proofs.Elimination.ReducedStaircase

/-!
# The reduced form of a rational matrix

Over the rationals back-substitution ends in a reduced staircase (`reducedStaircase_reduced`), and
a reduced staircase is determined by the space that its rows span (`ReducedStaircase.unique`).

The uniqueness rests on one equation. A vector of the row space is the combination of the rows
whose coefficients are its own entries in the columns of the pivots (`eq_sum_of_mem_rowSpace`). So
the columns of the pivots are those in which some vector of the space has its leading entry, which
does not mention the staircase; and then each row of one staircase is the row of the other, because
it has the same entries in the columns of the pivots. The number of rows plays no part: staircases
of different heights are compared as well.
-/

namespace LinearSystems

open Matrix

variable {r c : ℕ}

/-! ### Back-substitution reduces -/

/-- The rows from row `n` on are reduced: their pivots are one and alone in their columns. -/
structure ReducedFrom (n : ℕ) (f : Grid ℚ) (nrows ncols rank : ℕ) (pivot : ℕ → ℕ) : Prop extends
    Staircase f nrows ncols rank pivot where
  one : ∀ i, n ≤ i → i < rank → f i (pivot i) = 1
  zero_above : ∀ i, n ≤ i → i < rank → ∀ k < i, f k (pivot i) = 0

namespace ReducedFrom

variable {f : Grid ℚ} {n rank : ℕ} {pivot : ℕ → ℕ}

/-- Normalizing a row above the reduced ones keeps them reduced. -/
theorem normalizeRow (h : ReducedFrom (n + 1) f r c rank pivot) (hn : n < rank) :
    ReducedFrom (n + 1) (f.normalizeRow n (pivot n)) r c rank pivot := by
  refine ⟨h.toStaircase.normalizeRow hn, fun i hi hrank => ?_, fun i hi hrank k hk => ?_⟩
  · rw [Grid.normalizeRow_of_ne (Nat.ne_of_gt hi)]
    exact h.one i hi hrank
  · rcases eq_or_ne k n with rfl | hkn
    · rw [Grid.normalizeRow_eq_mul (h.eq_zero_left hn) (h.pivot_ne_zero hn),
        h.zero_above i hi hrank k hi, mul_zero]
    · rw [Grid.normalizeRow_of_ne hkn]
      exact h.zero_above i hi hrank k hk

/-- Clearing the column of a normalized pivot reduces its row as well: the rows below have zeros
in their own columns, and so does the row that is subtracted. -/
theorem clearAbove (h : ReducedFrom (n + 1) f r c rank pivot) (hn : n < rank)
    (hone : f n (pivot n) = 1) : ReducedFrom n (f.clearAbove n (pivot n)) r c rank pivot := by
  have hrow : ∀ k j, f.clearAbove n (pivot n) k j
      = f k j - (if k < n then f k (pivot n) else 0) * f n j :=
    Grid.clearAbove_eq_sub (h.eq_zero_left hn) hone
  refine ⟨h.toStaircase.clearAbove hn, fun i hi hrank => ?_, fun i hi hrank k hk => ?_⟩
  · rw [hrow, if_neg (Nat.not_lt.2 hi), zero_mul, sub_zero]
    rcases Nat.eq_or_lt_of_le hi with rfl | hlt
    · exact hone
    · exact h.one i hlt hrank
  · rw [hrow]
    rcases Nat.eq_or_lt_of_le hi with rfl | hlt
    · rw [if_pos hk, hone, mul_one, sub_self]
    · rw [h.zero_above i hlt hrank k hk, h.zero_above i hlt hrank n hlt, mul_zero, sub_zero]

theorem reduceRow (h : ReducedFrom (n + 1) f r c rank pivot) (hr : n < r) :
    ReducedFrom n (f.reduceRow c n) r c rank pivot := by
  rcases Nat.lt_or_ge n rank with hn | hn
  · rw [h.reduceRow_of_lt hn]
    exact (h.normalizeRow hn).clearAbove hn (h.normalizeRow_pivot_eq_one hn)
  · -- without a pivot in row `n`, no row is added to those that are reduced
    have hnone : ∀ i, n ≤ i → ¬i < rank := fun i hi => Nat.not_lt.2 (hn.trans hi)
    rw [h.reduceRow_of_le hn hr]
    exact ⟨h.toStaircase, fun i hi hrank => absurd hrank (hnone i hi),
      fun i hi hrank => absurd hrank (hnone i hi)⟩

theorem reduceRows (h : ReducedFrom n f r c rank pivot) (hn : n ≤ r) :
    ReducedFrom 0 (f.reduceRows c n) r c rank pivot := by
  induction n generalizing f with
  | zero => exact h
  | succ n ih => exact ih (h.reduceRow hn) (Nat.le_of_succ_le hn)

end ReducedFrom

/-- **Back-substitution of a rational staircase reduces it**, and moves no pivot. -/
theorem Staircase.reducedStaircase_reduceRows {f : Grid ℚ} {rank : ℕ} {pivot : ℕ → ℕ}
    (h : Staircase f r c rank pivot) : ReducedStaircase (f.reduceRows c r) r c rank pivot := by
  have hstart : ReducedFrom r f r c rank pivot :=
    ⟨h, fun i hi hrank => absurd (hrank.trans_le h.rank_le) (Nat.not_lt.2 hi),
      fun i hi hrank => absurd (hrank.trans_le h.rank_le) (Nat.not_lt.2 hi)⟩
  have hend := hstart.reduceRows le_rfl
  exact ⟨hend.toStaircase, fun i hi => Rational.isOne_iff.2 (hend.one i (Nat.zero_le i) hi),
    fun i hi k hk => Rational.isZero_iff.2 (hend.zero_above i (Nat.zero_le i) hi k hk)⟩

/-- The reduced form has the rank and the pivots of the sweep. -/
theorem exists_reducedStaircase (r c : ℕ) (f : Grid ℚ) :
    ∃ pivot, Staircase (Sweep.after r f c).grid r c (Sweep.after r f c).rank pivot ∧
      ReducedStaircase (f.reduced r c) r c (Sweep.after r f c).rank pivot := by
  obtain ⟨pivot, h⟩ := Sweep.exists_staircase r f c
  exact ⟨pivot, h, h.reducedStaircase_reduceRows⟩

/-! ### The row space -/

/-- The space that the rows of a grid span within a shape. -/
def Grid.rowSpace (r c : ℕ) (f : Grid ℚ) : Submodule ℚ (Fin c → ℚ) :=
  Submodule.span ℚ (Set.range (f.corner r c).row)

/-- The vectors of the row space are the combinations of the rows. -/
theorem Grid.mem_rowSpace_iff {f : Grid ℚ} {y : ℕ → ℚ} :
    (fun j : Fin c => y j) ∈ f.rowSpace r c ↔
      ∃ t : ℕ → ℚ, ∀ j < c, y j = ∑ i ∈ Finset.range r, t i * f i j := by
  -- a combination of the rows, column by column
  have hsum : ∀ t : ℕ → ℚ, ∑ i : Fin r, t i • (f.corner r c).row i = (fun j : Fin c => y j) ↔
      ∀ j < c, y j = ∑ i ∈ Finset.range r, t i * f i j := by
    intro t
    rw [funext_iff, Fin.forall_iff]
    refine forall_congr' fun j => forall_congr' fun _ => ?_
    rw [Finset.sum_apply, Finset.sum_range]
    exact eq_comm
  rw [rowSpace, Submodule.mem_span_range_iff_exists_fun]
  constructor
  · rintro ⟨w, hw⟩
    obtain ⟨t, ht⟩ := Rational.exists_sequence w
    simp only [← ht] at hw
    exact ⟨t, (hsum t).1 hw⟩
  · rintro ⟨t, ht⟩
    exact ⟨fun i => t i, (hsum t).2 ht⟩

theorem RowEquivalent.span_le {M N : Matrix (Fin r) (Fin c) ℚ} (h : RowEquivalent M N) :
    Submodule.span ℚ (Set.range N.row) ≤ Submodule.span ℚ (Set.range M.row) := by
  obtain ⟨P, -, rfl⟩ := h
  rw [Submodule.span_le]
  rintro _ ⟨i, rfl⟩
  have hrow : (P * M).row i = ∑ k, P i k • M.row k := by
    funext j
    simp [Matrix.mul_apply]
  rw [hrow]
  exact Submodule.sum_mem _ fun k _ =>
    Submodule.smul_mem _ _ (Submodule.subset_span (Set.mem_range_self k))

/-- Row equivalent grids have the same row space. -/
theorem RowEquivalent.rowSpace_eq {f g : Grid ℚ} (h : RowEquivalent (f.corner r c) (g.corner r c)) :
    f.rowSpace r c = g.rowSpace r c :=
  le_antisymm h.symm.span_le h.span_le

theorem rowSpace_reduced (r c : ℕ) (f : Grid ℚ) : (f.reduced r c).rowSpace r c = f.rowSpace r c :=
  (rowEquivalent_reduced r c f).rowSpace_eq.symm

/-! ### Uniqueness -/

/-- A sum whose coefficients are those of a unit vector. -/
theorem sum_unit_mul {n k : ℕ} (hk : k < n) (x : ℕ → ℚ) :
    ∑ i : Fin n, (if k = (i : ℕ) then 1 else 0) * x i = x k := by
  have hother : ∀ i : Fin n, i ≠ ⟨k, hk⟩ → (if k = (i : ℕ) then 1 else 0) * x i = 0 := by
    intro i hi
    rw [if_neg fun heq => hi (Fin.ext heq.symm), zero_mul]
  rw [Finset.sum_eq_single_of_mem ⟨k, hk⟩ (Finset.mem_univ _) fun i _ => hother i, if_pos rfl,
    one_mul]

namespace ReducedStaircase

variable {f : Grid ℚ} {rank : ℕ} {pivot : ℕ → ℕ}

/-- The column of a pivot, within the width. -/
def pivotColumn (h : ReducedStaircase f r c rank pivot) (i : Fin rank) : Fin c :=
  ⟨pivot i, h.pivot_lt i i.isLt⟩

/-- In the columns of the pivots, the rows are unit vectors. -/
theorem entry_pivot (h : ReducedStaircase f r c rank pivot) {i k : ℕ} (hi : i < rank) (hk : k < r) :
    f k (pivot i) = if k = i then 1 else 0 := by
  split_ifs with hki
  · rw [hki]
    exact Rational.isOne_iff.1 (h.one i hi)
  · exact Rational.isZero_iff.1 (h.zero_beside hi hk hki)

/-- **A vector of the row space is given by its entries in the columns of the pivots.** -/
theorem eq_sum_of_mem_rowSpace (h : ReducedStaircase f r c rank pivot) {v : Fin c → ℚ}
    (hv : v ∈ f.rowSpace r c) (j : Fin c) :
    v j = ∑ i : Fin rank, v (h.pivotColumn i) * f i j := by
  induction hv using Submodule.span_induction with
  | mem v hv =>
    obtain ⟨k, rfl⟩ := hv
    simp only [Matrix.row_apply, Grid.corner_apply, pivotColumn,
      h.entry_pivot (Fin.is_lt _) k.isLt]
    rcases Nat.lt_or_ge k rank with hk | hk
    · exact (sum_unit_mul hk fun i => f i j).symm
    · rw [Rational.isZero_iff.1 (h.zero_below k hk k.isLt j j.isLt)]
      refine (Finset.sum_eq_zero fun i _ => ?_).symm
      rw [if_neg (i.isLt.trans_le hk).ne', zero_mul]
  | zero => simp
  | add v w _ _ hv hw =>
    simp only [Pi.add_apply, add_mul, Finset.sum_add_distrib]
    rw [hv, hw]
  | smul x v _ hv =>
    simp only [Pi.smul_apply, smul_eq_mul, mul_assoc, ← Finset.mul_sum]
    rw [hv]

theorem row_mem_rowSpace (h : ReducedStaircase f r c rank pivot) {i : ℕ} (hi : i < rank) :
    (fun j : Fin c => f i j) ∈ f.rowSpace r c :=
  Submodule.subset_span ⟨⟨i, hi.trans_le h.rank_le⟩, rfl⟩

/-- The pivots are the leading positions of the vectors of the row space. -/
theorem mem_range_pivotColumn_iff (h : ReducedStaircase f r c rank pivot) {j : Fin c} :
    j ∈ Set.range h.pivotColumn ↔ ∃ v ∈ f.rowSpace r c, v j ≠ 0 ∧ ∀ k < j, v k = 0 := by
  constructor
  · rintro ⟨i, rfl⟩
    exact ⟨_, h.row_mem_rowSpace i.isLt, h.pivot_ne_zero i.isLt, fun k hk =>
      h.eq_zero_left i.isLt k hk⟩
  · rintro ⟨v, hv, hne, hleft⟩
    by_contra hj
    refine hne ?_
    rw [h.eq_sum_of_mem_rowSpace hv]
    refine Finset.sum_eq_zero fun i _ => ?_
    -- a row whose pivot is to the left has coefficient zero, the others have entry zero
    rcases lt_trichotomy (h.pivotColumn i) j with hlt | heq | hgt
    · rw [hleft _ hlt, zero_mul]
    · exact absurd ⟨i, heq⟩ hj
    · rw [h.eq_zero_left i.isLt j hgt, mul_zero]

theorem pivotColumn_strictMono (h : ReducedStaircase f r c rank pivot) :
    StrictMono h.pivotColumn :=
  fun i k hik => h.pivot_lt_pivot i k hik k.isLt

/-- **A reduced staircase is determined by its row space**, whatever the heights. -/
theorem unique {g : Grid ℚ} {r' rank' : ℕ} {pivot' : ℕ → ℕ}
    (h : ReducedStaircase f r c rank pivot) (h' : ReducedStaircase g r' c rank' pivot')
    (hspace : f.rowSpace r c = g.rowSpace r' c) :
    rank = rank' ∧ (∀ i < rank, pivot i = pivot' i) ∧ ∀ i < rank, ∀ j < c, f i j = g i j := by
  -- the columns of the pivots, their number and their order
  have hrange : Set.range h.pivotColumn = Set.range h'.pivotColumn := by
    ext j
    rw [mem_range_pivotColumn_iff, mem_range_pivotColumn_iff, hspace]
  have hrank : rank = rank' := by
    rw [← Nat.card_fin rank, ← Nat.card_fin rank',
      ← Nat.card_range_of_injective h.pivotColumn_strictMono.injective, hrange,
      Nat.card_range_of_injective h'.pivotColumn_strictMono.injective]
  subst hrank
  have hcolumn : h.pivotColumn = h'.pivotColumn :=
    (StrictMono.range_inj h.pivotColumn_strictMono h'.pivotColumn_strictMono).1 hrange
  refine ⟨rfl, fun i hi => congrArg Fin.val (congrFun hcolumn ⟨i, hi⟩), fun i hi j hj => ?_⟩
  -- a row of one staircase is a combination of the rows of the other, with unit coefficients
  have hmem := h.row_mem_rowSpace hi
  rw [hspace] at hmem
  have hsum := h'.eq_sum_of_mem_rowSpace hmem ⟨j, hj⟩
  dsimp only at hsum
  rw [hsum, ← hcolumn]
  simp only [pivotColumn, h.entry_pivot (Fin.is_lt _) (hi.trans_le h.rank_le)]
  exact sum_unit_mul hi fun k => g k j

end ReducedStaircase

/-- **Two grids have the same reduced form exactly if they have the same row space.** -/
theorem reduced_agree_iff (r c : ℕ) (f g : Grid ℚ) :
    (∀ i < r, ∀ j < c, f.reduced r c i j = g.reduced r c i j)
      ↔ f.rowSpace r c = g.rowSpace r c := by
  constructor
  · intro hagree
    rw [← rowSpace_reduced r c f, ← rowSpace_reduced r c g]
    have hcorner : (f.reduced r c).corner r c = (g.reduced r c).corner r c :=
      Matrix.ext fun i j => hagree i i.isLt j j.isLt
    rw [Grid.rowSpace, Grid.rowSpace, hcorner]
  · intro hspace i hi j hj
    obtain ⟨pivot, -, h⟩ := exists_reducedStaircase r c f
    obtain ⟨pivot', -, h'⟩ := exists_reducedStaircase r c g
    obtain ⟨hrank, -, hrows⟩ := h.unique h' (by rw [rowSpace_reduced, rowSpace_reduced, hspace])
    rcases Nat.lt_or_ge i (Sweep.after r f c).rank with hir | hbelow
    · exact hrows i hir j hj
    · rw [Rational.isZero_iff.1 (h.zero_below i hbelow hi j hj),
        Rational.isZero_iff.1 (h'.zero_below i (hrank ▸ hbelow) hi j hj)]

end LinearSystems
