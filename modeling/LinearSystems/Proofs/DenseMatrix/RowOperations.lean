import LinearSystems.Proofs.DenseMatrix.Grid
import LinearSystems.DenseMatrix.Elimination
import Mathlib.Logic.Equiv.Basic

/-!
# Row operations on grids

What the loops of a row operation leave behind, said of grids. A loop over columns rewrites each
column by itself (`forColumnsFrom_tabulate`), often in a single row (`forColumnsFrom_row_tabulate`),
and a loop over rows rewrites each row by means of one source row that it leaves alone
(`foldlM_rows_tabulate`). So in both loops every step reads what was there before the loop began,
and the result is a single expression.

No law of the scalars is used.
-/

namespace LinearSystems.DenseMatrix

variable {K : Type} {r c : ℕ}

/-! ### Loops -/

/-- A loop over columns whose step rewrites one column, by a function of that column, rewrites all
columns from the first one on. -/
theorem forColumnsFrom_tabulate {step : DenseMatrix K → ℕ → Except Fault (DenseMatrix K)}
    (op : (ℕ → K) → ℕ → K)
    (hstep : ∀ f : Grid K, ∀ l < c, step (tabulate r c f) l
      = .ok (tabulate r c fun a b => if b = l then op (fun k => f k l) a else f a b))
    (f : Grid K) (first : ℕ) :
    (tabulate r c f).forColumnsFrom first step
      = .ok (tabulate r c fun a b => if first ≤ b then op (fun k => f k b) a else f a b) := by
  -- generalized to a loop over `count` columns, so that the induction can move `first`
  have hloop : ∀ count first, ∀ f : Grid K, first + count ≤ c →
      (List.range' first count).foldlM step (tabulate r c f)
        = .ok (tabulate r c fun a b =>
            if first ≤ b ∧ b < first + count then op (fun k => f k b) a else f a b) := by
    intro count
    induction count with
    | zero =>
      intro first f _
      refine congrArg Except.ok (tabulate_congr fun a _ b _ => ?_)
      rw [if_neg (by omega)]
    | succ count ih =>
      intro first f hle
      rw [List.range'_succ, List.foldlM_cons, hstep f first (by omega), ok_bind,
        ih (first + 1) _ (by omega)]
      refine congrArg Except.ok (tabulate_congr fun a _ b _ => ?_)
      rcases Nat.lt_trichotomy b first with hlt | rfl | hgt
      · rw [if_neg (by omega), if_neg (by omega), if_neg (by omega)]
      · rw [if_neg (by omega), if_pos rfl, if_pos (by omega)]
      · have hne : b ≠ first := by omega
        rcases Nat.lt_or_ge b (first + (count + 1)) with hb | hb
        · rw [if_pos (by omega), if_pos (by omega)]
          simp only [if_neg hne]
        · rw [if_neg (by omega), if_neg hne, if_neg (by omega)]
  rw [forColumnsFrom, ncols_tabulate]
  rcases Nat.le_total first c with hfirst | hfirst
  · have hend : first + (c - first) = c := Nat.add_sub_cancel' hfirst
    rw [hloop (c - first) first f (by omega)]
    refine congrArg Except.ok (tabulate_congr fun a _ b hb => ?_)
    rw [hend]
    simp only [hb, and_true]
  · -- the loop has nothing to do, and no column of the shape is meant
    rw [Nat.sub_eq_zero_of_le hfirst]
    refine congrArg Except.ok (tabulate_congr fun a _ b hb => ?_)
    rw [if_neg (by omega)]

/-- A loop over columns whose step rewrites one entry of a row, by a function of the column,
rewrites that row from the first column on. -/
theorem forColumnsFrom_row_tabulate {step : DenseMatrix K → ℕ → Except Fault (DenseMatrix K)}
    {row : ℕ} (op : (ℕ → K) → K)
    (hstep : ∀ f : Grid K, ∀ l < c, step (tabulate r c f) l
      = .ok (tabulate r c fun a b => if a = row ∧ b = l then op (fun k => f k l) else f a b))
    (f : Grid K) (first : ℕ) :
    (tabulate r c f).forColumnsFrom first step
      = .ok (tabulate r c (Function.update f row fun b =>
          if first ≤ b then op (fun k => f k b) else f row b)) := by
  have hcolumn : ∀ f : Grid K, ∀ l < c, step (tabulate r c f) l
      = .ok (tabulate r c fun a b =>
          if b = l then Function.update (fun k => f k l) row (op fun k => f k l) a else f a b) := by
    intro f l hl
    rw [hstep f l hl]
    refine congrArg Except.ok (tabulate_congr fun a _ b _ => ?_)
    rcases eq_or_ne b l with rfl | hb
    · rcases eq_or_ne a row with rfl | ha
      · simp
      · simp [ha]
    · simp [hb]
  rw [forColumnsFrom_tabulate (fun u => Function.update u row (op u)) hcolumn]
  refine congrArg Except.ok (tabulate_congr fun a _ b _ => ?_)
  rcases eq_or_ne a row with rfl | ha
  · simp
  · simp [ha]

/-- A loop over rows whose step rewrites one row, as long as the row `source` is what it was,
rewrites all rows that it visits. It must not visit `source`, nor any row twice. -/
theorem foldlM_rows_tabulate {step : DenseMatrix K → ℕ → Except Fault (DenseMatrix K)}
    (op : ℕ → (ℕ → K) → ℕ → K) {f : Grid K} {source : ℕ}
    (hstep : ∀ g : Grid K, g source = f source → ∀ k < r, k ≠ source →
      step (tabulate r c g) k = .ok (tabulate r c (Function.update g k (op k (g k)))))
    {rows : List ℕ} (hnodup : rows.Nodup) (hrows : ∀ k ∈ rows, k < r ∧ k ≠ source) :
    rows.foldlM step (tabulate r c f)
      = .ok (tabulate r c fun a => if a ∈ rows then op a (f a) else f a) := by
  have hloop : ∀ g : Grid K, g source = f source →
      rows.foldlM step (tabulate r c g)
        = .ok (tabulate r c fun a => if a ∈ rows then op a (g a) else g a) := by
    induction rows with
    | nil => intro g _; simp
    | cons k rows ih =>
      intro g hg
      obtain ⟨hk, hks⟩ := hrows k List.mem_cons_self
      obtain ⟨hfresh, hnodup⟩ := List.nodup_cons.1 hnodup
      rw [List.foldlM_cons, hstep g hg k hk hks, ok_bind,
        ih hnodup (fun k' hk' => hrows k' (List.mem_cons_of_mem k hk')) _
          (by rw [Function.update_of_ne hks.symm, hg])]
      congr 2
      funext a
      rcases eq_or_ne a k with rfl | hak
      · simp [hfresh]
      · simp [hak]
  exact hloop f rfl

variable [Scalar K]

/-! ### Exchanging rows -/

/-- Two rows of a tabulation change places. -/
theorem swapRows_tabulate (f : Grid K) {i k : ℕ} (hi : i < r) (hk : k < r) :
    (tabulate r c f).swapRows i k = .ok (tabulate r c fun a => f (Equiv.swap i k a)) := by
  rw [swapRows]
  split_ifs with hik
  · subst hik
    simp
  · rw [forColumnsFrom_tabulate fun u a => u (Equiv.swap i k a)]
    · simp
    · intro g l hl
      rw [swapEntries, get_tabulate g hi hl, ok_bind, get_tabulate g hk hl, ok_bind,
        set_tabulate g hi hl, ok_bind, set_tabulate _ hk hl]
      refine congrArg Except.ok (tabulate_congr fun a _ b _ => ?_)
      rcases eq_or_ne b l with rfl | hb
      · rcases eq_or_ne a k with rfl | hak
        · simp
        · rcases eq_or_ne a i with rfl | hai
          · simp [hak]
          · simp [hak, hai, Equiv.swap_apply_of_ne_of_ne hai hak]
      · simp [hb]

/-! ### Subtracting a multiple of a row -/

/-- A multiple of the source row is subtracted from the target row, from a column on. -/
theorem subtractMultiple_tabulate (f : Grid K) {target source : ℕ} (htarget : target < r)
    (hsource : source < r) (factor : K) (first : ℕ) :
    (tabulate r c f).subtractMultiple target source factor first
      = .ok (tabulate r c (Function.update f target fun b =>
          if first ≤ b then Scalar.subMul (f target b) (f source b) factor else f target b)) := by
  have hstep : ∀ g : Grid K, ∀ l < c, (tabulate r c g).subtractEntry target source factor l
      = .ok (tabulate r c fun a b => if a = target ∧ b = l
          then Scalar.subMul (g target l) (g source l) factor else g a b) := by
    intro g l hl
    rw [subtractEntry, get_tabulate g htarget hl, ok_bind, get_tabulate g hsource hl, ok_bind,
      set_tabulate g htarget hl]
  exact forColumnsFrom_row_tabulate (fun u => Scalar.subMul (u target) (u source) factor) hstep
    f first

/-! ### Scaling a row -/

/-- A row is multiplied by a scalar, from a column on. -/
theorem scaleRow_tabulate (f : Grid K) {i : ℕ} (hi : i < r) (factor : K) (first : ℕ) :
    (tabulate r c f).scaleRow i factor first
      = .ok (tabulate r c (Function.update f i fun b =>
          if first ≤ b then Scalar.mul (f i b) factor else f i b)) := by
  have hstep : ∀ g : Grid K, ∀ l < c, (tabulate r c g).scaleEntry i factor l
      = .ok (tabulate r c fun a b =>
          if a = i ∧ b = l then Scalar.mul (g i l) factor else g a b) := by
    intro g l hl
    rw [scaleEntry, get_tabulate g hi hl, ok_bind, set_tabulate g hi hl]
  exact forColumnsFrom_row_tabulate (fun u => Scalar.mul (u i) factor) hstep f first

/-! ### Searching for entries that are not zero -/

theorem nonzeroAt_tabulate (f : Grid K) {i j : ℕ} (hi : i < r) (hj : j < c) :
    (tabulate r c f).nonzeroAt i j = .ok (!Scalar.isZero (f i j)) := by
  rw [nonzeroAt, get_tabulate f hi hj, ok_bind, pure_eq_ok]

end LinearSystems.DenseMatrix
