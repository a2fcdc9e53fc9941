import LinearSystems.Proofs.DenseMatrix.Layout
import LinearSystems.Proofs.Binary.Scalar
import LinearSystems.Flat.Intersection

/-!
# Echelon forms, row by row

What a staircase means for the rows of an echelon form, and for everything that is counted in it.
`Staircase` speaks of a grid and of pivots that nobody returns; a caller sees rows and where their
first non-zero entry stands (`DenseVector.firstNonzeroIndex?`).

* `Staircase.filterMap_leading?`: the leading positions of the rows are the pivots.
* `DenseMatrix.pivotColumns_tabulate`: so these are the columns of the pivots.
* `DenseMatrix.rowEchelonForm_staircase`: the rows of an echelon form begin further and further to
  the right, zero rows come last, and the number of the others is counted alike in five ways.

Of the arithmetic it is only used that zero counts as zero. The shape is the one that an elimination
writes, so NaNs and infinities among the entries do not disturb it.
-/

namespace LinearSystems

variable {K : Type} [Scalar K] {r c rank : ℕ} {pivot : ℕ → ℕ}

/-! ### Rows and their leading positions -/

/-- The first leading position of a row, found in the list of its entries. -/
theorem Grid.findIdx?_row (f : Grid K) (i : ℕ) :
    (((List.range c).map (f i)).findIdx? fun e => !Scalar.isZero e) = f.leading? c i := by
  rw [Grid.leading?, List.findIdx?_map]
  induction c with
  | zero => rfl
  | succ c ih =>
    rw [List.range_succ, List.findIdx?_append, List.find?_append, ih]
    cases hfirst : (List.range c).find? fun j => !Scalar.isZero (f i j) with
    | some j => rfl
    | none => by_cases hc : Scalar.isZero (f i c) <;> simp [hc, List.findIdx?_cons]

/-- The leading position of a row, as that of a vector. -/
theorem DenseVector.firstNonzeroIndex?_tabulate (f : Grid K) (i : ℕ) :
    (tabulate c (f i)).firstNonzeroIndex? = f.leading? c i :=
  Grid.findIdx?_row f i

/-- A vector is zero exactly if it has no leading position. -/
theorem DenseVector.isZero_eq_isNone (v : DenseVector K) :
    v.isZero = v.firstNonzeroIndex?.isNone := by
  rw [Bool.eq_iff_iff, Option.isNone_iff_eq_none, firstNonzeroIndex?, List.findIdx?_eq_none_iff,
    isZero, List.all_eq_true]
  simp only [Bool.not_eq_false']

/-- A vector is not zero exactly if it has a leading position. -/
theorem DenseVector.not_isZero_eq_isSome (v : DenseVector K) :
    (!v.isZero) = v.firstNonzeroIndex?.isSome := by
  rw [isZero_eq_isNone, Option.not_isNone]

/-! ### The columns of the pivots -/

namespace Staircase

variable {f : Grid K}

/-- The leading columns of the rows of a staircase are its pivots, from left to right. -/
theorem filterMap_leading? (h : Staircase f r c rank pivot) :
    (List.range r).filterMap (f.leading? c) = (List.range rank).map pivot := by
  obtain ⟨m, rfl⟩ := Nat.exists_eq_add_of_le h.rank_le
  have habove : (List.range rank).filterMap (f.leading? c) = (List.range rank).map pivot := by
    rw [← List.filterMap_eq_map]
    exact List.filterMap_congr fun i hi => h.leading?_of_lt (List.mem_range.1 hi)
  have hbelow : ((List.range m).map (rank + ·)).filterMap (f.leading? c) = [] := by
    rw [List.filterMap_eq_nil_iff]
    intro i hi
    obtain ⟨k, hk, rfl⟩ := List.mem_map.1 hi
    exact h.leading?_of_le (Nat.le_add_right rank k)
      (Nat.add_lt_add_left (List.mem_range.1 hk) rank)
  rw [List.range_add, List.filterMap_append, habove, hbelow, List.append_nil]

/-- The pivots are listed from left to right. -/
theorem pairwise_pivots (h : Staircase f r c rank pivot) :
    ((List.range rank).map pivot).Pairwise (· < ·) := by
  rw [List.pairwise_map]
  exact List.pairwise_lt_range.imp_of_mem fun _ hk hik =>
    h.pivot_lt_pivot _ _ hik (List.mem_range.1 hk)

/-- A row that is not zero begins to the right of all rows above it, which are not zero either. -/
theorem exists_leading?_lt (h : Staircase f r c rank pivot) {i k j : ℕ} (hik : i < k) (hk : k < r)
    (hlead : f.leading? c k = some j) : ∃ l < j, f.leading? c i = some l := by
  rcases Nat.lt_or_ge k rank with hrank | hrank
  · rw [h.leading?_of_lt hrank, Option.some.injEq] at hlead
    exact ⟨pivot i, hlead ▸ h.pivot_lt_pivot i k hik hrank, h.leading?_of_lt (hik.trans hrank)⟩
  · rw [h.leading?_of_le hrank hk] at hlead
    cases hlead

end Staircase

namespace DenseMatrix

/-- **The columns of the pivots** are those of the staircase that the elimination leaves. -/
theorem pivotColumns_tabulate {f : Grid K}
    (h : Staircase (Sweep.after r f c).grid r c rank pivot) :
    (tabulate r c f).pivotColumns.outcome = .ok ((List.range rank).map pivot) := by
  have hleading : ((tabulate r c (Sweep.after r f c).grid).rowChunks.take r).filterMap
      (fun row => row.findIdx? fun e => !Scalar.isZero e) = (List.range rank).map pivot := by
    rcases Nat.eq_zero_or_pos c with rfl | hc
    · -- without columns there are no pivots, and the storage has no pieces
      obtain rfl := Nat.le_zero.1 h.rank_le_ncols
      simp [rowChunks, tabulate, chunks]
    · rw [rowChunks_tabulate _ hc, List.take_of_length_le (by simp), List.filterMap_map,
        ← h.filterMap_leading?]
      exact List.filterMap_congr fun i _ => Grid.findIdx?_row _ i
  rw [pivotColumns, Traced.outcome_bind, rowEchelonForm_tabulate, ok_bind, Traced.outcome_pure,
    nrows_tabulate, hleading]

/-- The row space is spanned by the rows of the echelon form. -/
theorem rowSpace_tabulate (f : Grid K) :
    (tabulate r c f).rowSpace.outcome = .ok (.ofDirections ((List.range r).map fun i =>
      DenseVector.tabulate c ((Sweep.after r f c).grid i))) := by
  rw [rowSpace, Traced.outcome_bind, rowEchelonForm_tabulate, ok_bind, Traced.outcome_bind,
    Traced.outcome_lift, rows_tabulate, ok_bind, Traced.outcome_pure]

/-- The rows of a staircase that are not zero are as many as its pivots. -/
theorem countP_rows {f : Grid K} (h : Staircase f r c rank pivot) :
    (((List.range r).map fun i => DenseVector.tabulate c (f i)).countP fun row => !row.isZero)
      = rank := by
  have hcount : ∀ i, (!(DenseVector.tabulate c (f i)).isZero) = (f.leading? c i).isSome := by
    intro i
    rw [DenseVector.not_isZero_eq_isSome, DenseVector.firstNonzeroIndex?_tabulate]
  rw [List.countP_map, Function.comp_def]
  simp only [hcount]
  rw [← List.length_filterMap_eq_countP, h.filterMap_leading?, List.length_map, List.length_range]

/-- **Echelon forms are staircases**, for scalars without laws. Of two rows of the echelon form, the
lower one begins further to the right if it is not zero, and is zero if the upper one is. The number
of the rows that are not zero is the rank, also the one that the row reduction returns, the number
of the pivot columns, which increase, and the number of directions of the row space. -/
theorem rowEchelonForm_staircase [ZeroCountsAsZero K] {m : DenseMatrix K} (h : m.WellFormed) :
    ∃ echelon rows reduced rank pivots span,
      m.rowEchelonForm.outcome = .ok echelon ∧ echelon.shape = m.shape ∧
      echelon.rows = .ok rows ∧ rows.length = m.nrows ∧
      (rows.Pairwise fun upper lower => ∀ j, lower.firstNonzeroIndex? = some j →
        ∃ i < j, upper.firstNonzeroIndex? = some i) ∧
      (rows.Pairwise fun upper lower => upper.isZero = true → lower.isZero = true) ∧
      m.rank.outcome = .ok rank ∧ m.rowReduce.outcome = .ok (reduced, rank) ∧
      m.pivotColumns.outcome = .ok pivots ∧ m.rowSpace.outcome = .ok span ∧
      (rows.countP fun row => !row.isZero) = rank ∧ pivots.length = rank ∧
      span.directions.length = rank ∧ pivots.Pairwise (· < ·) := by
  obtain ⟨r, c, f, rfl⟩ : ∃ r c, ∃ f : Grid K, m = tabulate r c f :=
    ⟨_, _, _, eq_tabulate_entry h rfl rfl⟩
  obtain ⟨pivot, hafter⟩ := Sweep.exists_staircase r f c
  set rows := (List.range r).map fun i => DenseVector.tabulate c ((Sweep.after r f c).grid i)
    with hrows
  -- a lower row that is not zero begins further to the right
  have hpairwise : rows.Pairwise fun upper lower => ∀ j, lower.firstNonzeroIndex? = some j →
      ∃ i < j, upper.firstNonzeroIndex? = some i := by
    rw [hrows, List.pairwise_map]
    refine List.pairwise_lt_range.imp_of_mem fun _ hk hik j => ?_
    simp only [DenseVector.firstNonzeroIndex?_tabulate]
    exact hafter.exists_leading?_lt hik (List.mem_range.1 hk)
  have hzero : rows.Pairwise fun upper lower => upper.isZero = true → lower.isZero = true := by
    refine hpairwise.imp fun {upper lower} hlead hupper => ?_
    rw [DenseVector.isZero_eq_isNone, Option.isNone_iff_eq_none] at hupper ⊢
    refine Option.eq_none_iff_forall_ne_some.2 fun j hj => ?_
    obtain ⟨i, -, hi⟩ := hlead j hj
    rw [hupper] at hi
    cases hi
  have hcount : (rows.countP fun row => !row.isZero) = (Sweep.after r f c).rank :=
    countP_rows hafter
  refine ⟨_, rows, _, _, _, _, rowEchelonForm_tabulate f, rfl, rows_tabulate _, by simp [hrows],
    hpairwise, hzero, rank_tabulate f, rowReduce_tabulate f, pivotColumns_tabulate hafter,
    rowSpace_tabulate f, hcount, by simp, ?_, hafter.pairwise_pivots⟩
  rw [SpanningSet.ofDirections, ← List.countP_eq_length_filter, hcount]

open Binary in
/-- A column of zeros is passed over, and NaNs that an elimination leaves behind are pivots. -/
theorem rowEchelonForm_of_nan :
    let m : DenseMatrix (Binary binary64) :=
      ⟨2, 3, #[Binary.zero, nan, one, Binary.zero, one, nan]⟩
    ∃ echelon rows, m.rowEchelonForm.outcome = .ok echelon ∧
      echelon.rows = .ok rows ∧ (rows.countP fun row => !row.isZero) = 2 ∧
      rows.Pairwise fun upper lower => ∀ j, lower.firstNonzeroIndex? = some j →
        ∃ i < j, upper.firstNonzeroIndex? = some i := by
  intro m
  obtain ⟨echelon, rows, reduced, rank, pivots, span, hechelon, -, hrows, -, hpairwise, -, hrank,
    -, -, -, hcount, -⟩ := rowEchelonForm_staircase (m := m) (by decide)
  have htwo : m.rank.outcome = .ok 2 := by decide +kernel
  obtain rfl := Except.ok.inj (hrank.symm.trans htwo)
  exact ⟨echelon, rows, hechelon, hrows, hcount, hpairwise⟩

end DenseMatrix

end LinearSystems
