import LinearSystems.Proofs.Elimination.Sweep

/-!
# Back-substitution on grids

`Grid.reduceRow` reduces one row of a grid and `Grid.reduceRows` the first rows, from the last of
them upwards. Both read a width, because the leading column of a row is searched for within it.
`Grid.reduced r c f` is the reduced form of a grid: the sweep, then back-substitution.

The entry points follow: the echelon forms and the rank of a tabulation, without their logs. None
of them fails, whatever the scalars are.
-/

namespace LinearSystems

variable {K : Type} [Scalar K] {r c : ℕ}

namespace Grid

/-- The first column in which a row has an entry that does not count as zero. -/
def leading? (f : Grid K) (ncols i : ℕ) : Option ℕ :=
  (List.range ncols).find? fun j => !Scalar.isZero (f i j)

/-- The grid with the entry of row `i` in column `j` made one by a multiple of the row. -/
def normalizeRow (f : Grid K) (i j : ℕ) : Grid K :=
  if Scalar.isOne (f i j) then f
  else Function.update f i fun b =>
    if b < j then f i b else if b = j then Scalar.one
    else Scalar.mul (f i b) (Scalar.inv (f i j))

/-- The grid with row `i` normalized and its leading column cleared above. -/
def reduceRow (f : Grid K) (ncols i : ℕ) : Grid K :=
  match f.leading? ncols i with
  | none => f
  | some j => clearAbove (normalizeRow f i j) i j

/-- The grid with its first `count` rows reduced, from the last of them upwards. -/
def reduceRows (f : Grid K) (ncols : ℕ) : ℕ → Grid K
  | 0 => f
  | count + 1 => reduceRows (f.reduceRow ncols count) ncols count

/-- The reduced form of a grid within a shape. -/
def reduced (r c : ℕ) (f : Grid K) : Grid K :=
  reduceRows (Sweep.after r f c).grid c r

theorem leading?_eq_none {f : Grid K} {ncols i : ℕ} :
    leading? f ncols i = none ↔ ∀ j < ncols, Scalar.isZero (f i j) = true := by
  simp only [leading?, List.find?_range_eq_none, Bool.not_not]

theorem leading?_eq_some {f : Grid K} {ncols i j : ℕ} :
    leading? f ncols i = some j ↔ j < ncols ∧ Scalar.isZero (f i j) = false ∧
      ∀ k < j, Scalar.isZero (f i k) = true := by
  simp only [leading?, List.find?_range_eq_some, Bool.not_not, List.mem_range,
    Bool.not_eq_true']
  tauto

/-- Normalizing a row leaves the other rows alone. -/
theorem normalizeRow_of_ne {f : Grid K} {i a : ℕ} (h : a ≠ i) (j : ℕ) :
    normalizeRow f i j a = f a := by
  rw [normalizeRow]
  split_ifs with hone
  · rfl
  · exact Function.update_of_ne h _ f

/-- Normalizing a row leaves its entries to the left of the pivot alone. -/
theorem normalizeRow_of_lt (f : Grid K) (i : ℕ) {j b : ℕ} (h : b < j) :
    normalizeRow f i j i b = f i b := by
  rw [normalizeRow]
  split_ifs with hone
  · rfl
  · rw [Function.update_self, if_pos h]

/-- The pivot of a normalized row counts as one before, or is one. -/
theorem normalizeRow_pivot (f : Grid K) (i j : ℕ) :
    Scalar.isOne (f i j) = true ∧ normalizeRow f i j i j = f i j ∨
      normalizeRow f i j i j = Scalar.one := by
  rw [normalizeRow]
  split_ifs with hone
  · exact Or.inl ⟨hone, rfl⟩
  · rw [Function.update_self, if_neg (Nat.lt_irrefl j), if_pos rfl]
    exact Or.inr rfl

/-- Reducing a row leaves the rows below it alone. -/
theorem reduceRow_of_lt (f : Grid K) (ncols : ℕ) {i a : ℕ} (h : i < a) :
    f.reduceRow ncols i a = f a := by
  rw [reduceRow]
  cases f.leading? ncols i with
  | none => rfl
  | some j =>
    dsimp only
    rw [clearAbove, if_neg (Nat.lt_asymm h), normalizeRow_of_ne (Nat.ne_of_gt h)]

/-- Reducing the first rows leaves the rows behind them alone. -/
theorem reduceRows_of_le (f : Grid K) (ncols : ℕ) {count a : ℕ} (h : count ≤ a) :
    f.reduceRows ncols count a = f a := by
  induction count generalizing f with
  | zero => rfl
  | succ count ih =>
    rw [reduceRows, ih (f.reduceRow ncols count) (Nat.le_of_succ_le h), reduceRow_of_lt f ncols h]

end Grid

namespace DenseMatrix

theorem leadingColumn_tabulate (f : Grid K) {i : ℕ} (hi : i < r) :
    (tabulate r c f).leadingColumn i = .ok (Grid.leading? f c i) := by
  rw [leadingColumn, findIndex_eq_ok fun k _ hlt => nonzeroAt_tabulate f hi (by simpa using hlt),
    Grid.leading?, List.range_eq_range', ncols_tabulate]

theorem normalizeRow_tabulate (f : Grid K) {i j : ℕ} (hi : i < r) (hj : j < c)
    (hnonzero : Scalar.isZero (f i j) = false) :
    (tabulate r c f).normalizeRow i j = .ok (tabulate r c (Grid.normalizeRow f i j)) := by
  rw [normalizeRow, get_tabulate f hi hj, ok_bind, Grid.normalizeRow]
  split_ifs with hone
  · rfl
  · rw [Scalar.pivotInverse_of_nonzero hnonzero, ok_bind, scaleRow_tabulate f hi, ok_bind,
      set_tabulate _ hi hj]
    refine congrArg Except.ok (tabulate_congr fun a _ b _ => ?_)
    rcases eq_or_ne a i with rfl | ha
    · -- the row is scaled from the column of the pivot on, and then the pivot is set to one
      simp only [true_and, Function.update_self]
      rcases Nat.lt_trichotomy b j with hlt | rfl | hgt
      · rw [if_neg (Nat.ne_of_lt hlt), if_pos hlt, if_neg (by omega)]
      · simp
      · rw [if_neg (Nat.ne_of_gt hgt), if_neg (Nat.lt_asymm hgt), if_neg (Nat.ne_of_gt hgt),
          if_pos (Nat.succ_le_of_lt hgt)]
    · simp [ha]

/-- A row above the pivot is cancelled; the pivot row has to be what it was. -/
theorem cancelAbove_tabulate {f g : Grid K} {i j k : ℕ} (hg : g i = f i) (hi : i < r) (hk : k < r)
    (hne : k ≠ i) (hj : j < c) :
    cancelAbove i j (tabulate r c g) k
      = .ok (tabulate r c (Function.update g k (Grid.cancel j (g k j) (f i) (g k)))) := by
  rw [cancelAbove, get_tabulate g hk hj, ok_bind]
  split_ifs with hzero
  · rw [Grid.cancel_of_isZero hzero, Function.update_eq_self, pure_eq_ok]
  · rw [set_subtractMultiple_tabulate g hk hi hne.symm hj (by simpa using hzero), hg]

theorem reduceRow_tabulate (f : Grid K) {i : ℕ} (hi : i < r) :
    (tabulate r c f).reduceRow i = .ok (tabulate r c (f.reduceRow c i)) := by
  rw [reduceRow, leadingColumn_tabulate f hi, ok_bind, Grid.reduceRow]
  cases hlead : Grid.leading? f c i with
  | none => rfl
  | some j =>
    obtain ⟨hj, hnonzero, -⟩ := Grid.leading?_eq_some.1 hlead
    dsimp only
    rw [normalizeRow_tabulate f hi hj hnonzero, ok_bind]
    -- the rows above are cancelled by the normalized row, which the loop leaves alone
    set g := Grid.normalizeRow f i j
    rw [foldlM_rows_tabulate (fun _ row => Grid.cancel j (row j) (g i) row)
      (fun g' hg' k hk hne => cancelAbove_tabulate hg' hi hk hne hj) List.nodup_range
      fun k hk => by have := List.mem_range.1 hk; omega]
    refine congrArg Except.ok (tabulate_congr fun a _ b _ => ?_)
    simp only [List.mem_range, Grid.clearAbove]

theorem reduceRows_tabulate (f : Grid K) {count : ℕ} (hcount : count ≤ r) :
    (tabulate r c f).reduceRows count = .ok (tabulate r c (f.reduceRows c count)) := by
  induction count generalizing f with
  | zero => rfl
  | succ count ih =>
    rw [reduceRows, reduceRow_tabulate f hcount, ok_bind, ih _ (Nat.le_of_succ_le hcount),
      Grid.reduceRows]

/-! ### Echelon forms, without their logs -/

theorem eliminate_tabulate (f : Grid K) :
    (tabulate r c f).eliminate.outcome = .ok ((Sweep.after r f c).toElimination r c) := by
  simp [eliminate, Elimination.ofMatrix_tabulate]

theorem rowReduce_tabulate (f : Grid K) :
    (tabulate r c f).rowReduce.outcome
      = .ok (tabulate r c (Grid.reduced r c f), (Sweep.after r f c).rank) := by
  have hback : backSubstitute (tabulate r c (Sweep.after r f c).grid)
      = .ok (tabulate r c (Grid.reduced r c f)) := reduceRows_tabulate _ (Nat.le_refl r)
  simp [rowReduce, eliminate_tabulate, Sweep.toElimination, hback]

theorem rowEchelonForm_tabulate (f : Grid K) :
    (tabulate r c f).rowEchelonForm.outcome = .ok (tabulate r c (Sweep.after r f c).grid) := by
  simp [rowEchelonForm, eliminate_tabulate, Sweep.toElimination]

theorem reducedRowEchelonForm_tabulate (f : Grid K) :
    (tabulate r c f).reducedRowEchelonForm.outcome = .ok (tabulate r c (Grid.reduced r c f)) := by
  simp [reducedRowEchelonForm, rowReduce_tabulate]

theorem rank_tabulate (f : Grid K) :
    (tabulate r c f).rank.outcome = .ok (Sweep.after r f c).rank := by
  simp [rank, eliminate_tabulate]

end DenseMatrix

end LinearSystems
