import LinearSystems.Proofs.Binary.Scalar
import LinearSystems.Proofs.Elimination.ReducedStaircase

/-!
# Fixed points of row reduction

The test for reduced row echelon forms and the reduction agree: the test accepts a matrix exactly
if the reduction gives back an equal one. For scalars with field laws this is the uniqueness of the
reduced form. Here it is shown without them, so that it also holds for floating-point numbers with
NaNs and infinities, whose reduced form need not be reduced at all.

* Neither pass touches a reduced staircase. The forward pass leaves any staircase alone: it finds
  the pivots where they are, and nothing below them (`Staircase.after_eq`). Back-substitution finds
  pivots that count as one, and nothing above them (`ReducedStaircase.reduceRows_eq`).
* Conversely, what the reduction returns is a staircase whose pivots count as one
  (`Staircase.unitStaircase_reduceRows`). An equal matrix is one as well, so the forward pass leaves
  it alone, and in the column of a pivot back-substitution writes zeros above it, in every row that
  none of the pivots in between has changed (`UnitStaircase.isZero_reduceRows`). So the entries
  above the pivots count as zero, by induction on the pivots from each row downwards.
-/

namespace LinearSystems

variable {K : Type} [Scalar K] {r c rank : ℕ} {pivot : ℕ → ℕ} {f : Grid K}

/-! ### The forward pass on a staircase -/

/-- A pivot that is in its place is chosen, and nothing is exchanged. -/
theorem Sweep.pivotRow?_of_nonzero {s : Sweep K} {n : ℕ} (hrank : s.rank < r)
    (hnonzero : Scalar.isZero (s.grid s.rank n) = false) : s.pivotRow? r n = some s.rank := by
  obtain ⟨m, hm⟩ : ∃ m, r - s.rank = m + 1 := ⟨r - s.rank - 1, by omega⟩
  rw [pivotRow?, hm, List.range'_succ, List.find?_cons_of_pos (by simpa using hnonzero)]

/-- A column whose pivot is in its place, with nothing below it, is left alone. -/
theorem Sweep.step_eq_of_nonzero {s : Sweep K} {n : ℕ} (hrank : s.rank < r)
    (hnonzero : Scalar.isZero (s.grid s.rank n) = false)
    (hbelow : ∀ i < r, s.rank < i → Scalar.isZero (s.grid i n) = true) :
    (s.step r n).rank = s.rank + 1 ∧ ∀ i < r, (s.step r n).grid i = s.grid i := by
  rw [step_of_some (pivotRow?_of_nonzero hrank hnonzero)]
  refine ⟨rfl, fun i hi => ?_⟩
  simp only [bringUp, Equiv.swap_self, Equiv.refl_apply, Grid.clearBelow]
  split_ifs with hlt
  · exact Grid.cancel_of_isZero (hbelow i hi hlt) _ _
  · rfl

/-- **The forward pass leaves a staircase alone.** After the first columns it has counted the pivots
in them. -/
theorem Staircase.after_eq (h : Staircase f r c rank pivot) {n : ℕ} (hn : n ≤ c) :
    (∀ i < r, (Sweep.after r f n).grid i = f i) ∧ (Sweep.after r f n).rank ≤ rank ∧
      (∀ i < (Sweep.after r f n).rank, pivot i < n) ∧
      ∀ i < rank, (Sweep.after r f n).rank ≤ i → n ≤ pivot i := by
  induction n with
  | zero =>
    exact ⟨fun _ _ => rfl, Nat.zero_le rank, fun i hi => absurd hi (Nat.not_lt_zero i),
      fun i _ _ => Nat.zero_le _⟩
  | succ n ih =>
    obtain ⟨hgrid, hrank, hold, hnew⟩ := ih (Nat.le_of_succ_le hn)
    rw [Sweep.after_succ]
    set s := Sweep.after r f n
    by_cases hpivot : s.rank < rank ∧ pivot s.rank = n
    · -- the next pivot stands in this column
      obtain ⟨hlt, heq⟩ := hpivot
      have hr : s.rank < r := hlt.trans_le h.rank_le
      have hnonzero : Scalar.isZero (s.grid s.rank n) = false := by
        rw [hgrid _ hr, ← heq]
        exact h.nonzero _ hlt
      have hbelow : ∀ i < r, s.rank < i → Scalar.isZero (s.grid i n) = true := fun i hi hsi => by
        rw [hgrid i hi, ← heq]
        exact h.zero_under hsi hi hlt
      obtain ⟨hsucc, hsame⟩ := Sweep.step_eq_of_nonzero hr hnonzero hbelow
      rw [hsucc]
      refine ⟨fun i hi => (hsame i hi).trans (hgrid i hi), hlt, fun i hi => ?_, fun i hi hsi => ?_⟩
      · rcases Nat.lt_succ_iff_lt_or_eq.1 hi with his | rfl
        · exact Nat.lt_succ_of_lt (hold i his)
        · exact heq ▸ Nat.lt_succ_self _
      · exact heq ▸ h.pivot_lt_pivot s.rank i hsi hi
    · -- it stands further to the right, and so do all others
      have hright : ∀ i < rank, s.rank ≤ i → n < pivot i := by
        intro i hi hsi
        rcases hsi.eq_or_lt with rfl | hlt
        · exact lt_of_le_of_ne (hnew _ hi le_rfl) fun heq => hpivot ⟨hi, heq.symm⟩
        · exact (hnew _ (hlt.trans hi) le_rfl).trans_lt (h.pivot_lt_pivot _ i hlt hi)
      have hnone : s.pivotRow? r n = none := Sweep.pivotRow?_eq_none.2 fun i hsi hi => by
        rw [hgrid i hi]
        rcases Nat.lt_or_ge i rank with hlt | hge
        · exact h.zero_left i hlt n (hright i hlt hsi)
        · exact h.zero_below i hge hi n hn
      rw [Sweep.step_of_none hnone]
      exact ⟨hgrid, hrank, fun i hi => Nat.lt_succ_of_lt (hold i hi), hright⟩

/-! ### Staircases whose pivots count as one -/

/-- A staircase whose pivots count as one. Nothing is said about what stands above them. -/
structure UnitStaircase (f : Grid K) (nrows ncols rank : ℕ) (pivot : ℕ → ℕ) : Prop extends
    Staircase f nrows ncols rank pivot where
  one : ∀ i < rank, Scalar.isOne (f i (pivot i)) = true

/-- **Back-substitution makes the pivots count as one**: those of the rows that were visited. -/
theorem Staircase.isOne_reduceRows [OneIsNonzero K] [OneCountsAsOne K]
    (h : Staircase f r c rank pivot) {count : ℕ} (hcount : count ≤ r) {i : ℕ} (hi : i < rank)
    (hic : i < count) : Scalar.isOne (f.reduceRows c count i (pivot i)) = true := by
  induction count generalizing f with
  | zero => exact absurd hic (Nat.not_lt_zero i)
  | succ count ih =>
    rcases Nat.lt_succ_iff_lt_or_eq.1 hic with hlt | rfl
    · exact ih (h.reduceRow hcount) (Nat.le_of_succ_le hcount) hlt
    · -- the row was normalized just now, and the rows above do not come back to it
      rw [Grid.reduceRows, Grid.reduceRows_of_le _ c le_rfl, h.reduceRow_of_lt hi, Grid.clearAbove,
        if_neg (Nat.lt_irrefl i)]
      rcases Grid.normalizeRow_pivot f i (pivot i) with ⟨hone, hsame⟩ | hone
      · rw [hsame]
        exact hone
      · rw [hone]
        exact isOne_one

/-- What back-substitution returns is a staircase whose pivots count as one. -/
theorem Staircase.unitStaircase_reduceRows [OneIsNonzero K] [OneCountsAsOne K]
    (h : Staircase f r c rank pivot) : UnitStaircase (f.reduceRows c r) r c rank pivot where
  toStaircase := h.reduceRows le_rfl
  one _ hi := h.isOne_reduceRows le_rfl hi (hi.trans_le h.rank_le)

namespace UnitStaircase

/-- Only which entries count as zero and as one matters, and only within the shape. -/
theorem congr {g : Grid K} (h : UnitStaircase f r c rank pivot)
    (hzero : ∀ i < r, ∀ j < c, Scalar.isZero (g i j) = Scalar.isZero (f i j))
    (hone : ∀ i < r, ∀ j < c, Scalar.isOne (g i j) = Scalar.isOne (f i j)) :
    UnitStaircase g r c rank pivot where
  toStaircase := h.toStaircase.congr hzero
  one i hi := by
    rw [hone i (hi.trans_le h.rank_le) _ (h.pivot_lt i hi)]
    exact h.one i hi

/-- A pivot that counts as one is not normalized again. -/
theorem reduceRow_eq (h : UnitStaircase f r c rank pivot) {i : ℕ} (hi : i < rank) :
    f.reduceRow c i = f.clearAbove i (pivot i) := by
  rw [h.reduceRow_of_lt hi, Grid.normalizeRow, if_pos (h.one i hi)]

theorem reduceRow (h : UnitStaircase f r c rank pivot) {i : ℕ} (hi : i < r) :
    UnitStaircase (f.reduceRow c i) r c rank pivot := by
  rcases Nat.lt_or_ge i rank with hrank | hrank
  · rw [h.reduceRow_eq hrank]
    refine ⟨h.clearAbove hrank, fun k hk => ?_⟩
    rw [h.clearAbove_of_le hrank le_rfl]
    exact h.one k hk
  · rw [h.reduceRow_of_le hrank hi]
    exact h

/-- A row that counts as zero above the pivots of the rows below it is not changed. -/
theorem reduceRows_eq (h : UnitStaircase f r c rank pivot) {count : ℕ} (hcount : count ≤ r) {k : ℕ}
    (hzero : ∀ l, k < l → l < count → l < rank → Scalar.isZero (f k (pivot l)) = true) :
    f.reduceRows c count k = f k := by
  induction count generalizing f with
  | zero => rfl
  | succ count ih =>
    have hrow : f.reduceRow c count k = f k := by
      rcases Nat.lt_or_ge count rank with hrank | hrank
      · rw [h.reduceRow_eq hrank, Grid.clearAbove]
        split_ifs with hk
        · exact Grid.cancel_of_isZero (hzero count hk (Nat.lt_succ_self count) hrank) _ _
        · rfl
      · rw [h.reduceRow_of_le hrank hcount]
    rw [Grid.reduceRows, ih (h.reduceRow hcount) (Nat.le_of_succ_le hcount) fun l hkl hl hrank => by
      rw [hrow]
      exact hzero l hkl (Nat.lt_succ_of_lt hl) hrank, hrow]

/-- Above the pivot of row `i`, the entry of row `k` counts as zero in the end, if the row counts
as zero above all pivots in between: the rows below row `i` do not reach that column, row `i` clears
it, and the rows in between leave row `k` alone. -/
theorem isZero_reduceRows [ZeroCountsAsZero K] (h : UnitStaircase f r c rank pivot) {count : ℕ}
    (hcount : count ≤ r) {i k : ℕ} (hi : i < rank) (hic : i < count) (hki : k < i)
    (hzero : ∀ l, k < l → l < i → Scalar.isZero (f k (pivot l)) = true) :
    Scalar.isZero (f.reduceRows c count k (pivot i)) = true := by
  induction count generalizing f with
  | zero => exact absurd hic (Nat.not_lt_zero i)
  | succ count ih =>
    rw [Grid.reduceRows]
    have hnext := h.reduceRow hcount
    have hcount' := Nat.le_of_succ_le hcount
    -- the pivots from row `k` to row `i` are to the left of what the row changes
    have hleft : ∀ l < count, Scalar.isZero (f k (pivot l)) = true →
        Scalar.isZero (f.reduceRow c count k (pivot l)) = true := by
      intro l hl hfl
      rcases Nat.lt_or_ge count rank with hrank | hrank
      · rw [h.reduceRow_eq hrank, Grid.clearAbove]
        split_ifs
        · rw [Grid.cancel_of_lt (h.pivot_lt_pivot l count hl hrank)]
          exact hfl
        · exact hfl
      · rw [h.reduceRow_of_le hrank hcount]
        exact hfl
    rcases Nat.lt_succ_iff_lt_or_eq.1 hic with hlt | rfl
    · exact ih hnext hcount' hlt fun l hkl hli => hleft l (hli.trans hlt) (hzero l hkl hli)
    · rw [hnext.reduceRows_eq hcount' fun l hkl hli _ => hleft l hli (hzero l hkl hli),
        h.reduceRow_eq hi, Grid.clearAbove, if_pos hki]
      exact Grid.isZero_cancel _ _ _ _

/-- **A fixed point of back-substitution is reduced**, if its pivots count as one. It is enough
that back-substitution turns no zero into something else. -/
theorem reducedStaircase [ZeroCountsAsZero K] (h : UnitStaircase f r c rank pivot)
    (hfixed : ∀ i < r, ∀ j < c,
      Scalar.isZero (f.reduceRows c r i j) = Scalar.isZero (f i j)) :
    ReducedStaircase f r c rank pivot where
  toStaircase := h.toStaircase
  one := h.one
  zero_above i hi k hki := by
    -- induction on the pivots below row `k`
    induction i using Nat.strong_induction_on with
    | _ i ih =>
      have hr : i < r := hi.trans_le h.rank_le
      rw [← hfixed k (hki.trans hr) _ (h.pivot_lt i hi)]
      exact h.isZero_reduceRows le_rfl hi hr hki fun l hkl hli => ih l hli (hli.trans hi) hkl

end UnitStaircase

namespace ReducedStaircase

theorem unitStaircase (h : ReducedStaircase f r c rank pivot) : UnitStaircase f r c rank pivot where
  toStaircase := h.toStaircase
  one := h.one

/-- **Back-substitution leaves a reduced staircase alone**: no row has anything above a pivot. -/
theorem reduceRows_eq (h : ReducedStaircase f r c rank pivot) : f.reduceRows c r = f :=
  funext fun k => h.unitStaircase.reduceRows_eq le_rfl fun l hkl _ hl => h.zero_above l hl k hkl

/-- Only which entries count as zero and as one matters, and only within the shape. -/
theorem congr {g : Grid K} (h : ReducedStaircase f r c rank pivot)
    (hzero : ∀ i < r, ∀ j < c, Scalar.isZero (g i j) = Scalar.isZero (f i j))
    (hone : ∀ i < r, ∀ j < c, Scalar.isOne (g i j) = Scalar.isOne (f i j)) :
    ReducedStaircase g r c rank pivot where
  toStaircase := h.toStaircase.congr hzero
  one := (h.unitStaircase.congr hzero hone).one
  zero_above i hi k hki := by
    rw [hzero k (hki.trans (hi.trans_le h.rank_le)) _ (h.pivot_lt i hi)]
    exact h.zero_above i hi k hki

/-- **Neither pass changes a reduced staircase.** -/
theorem reduced_eq (h : ReducedStaircase f r c rank pivot) {i : ℕ} (hi : i < r) :
    Grid.reduced r c f i = f i := by
  obtain ⟨hafter, -⟩ := h.toStaircase.after_eq (le_refl c)
  have hechelon : ReducedStaircase (Sweep.after r f c).grid r c rank pivot :=
    h.congr (fun k hk j _ => by rw [hafter k hk]) fun k hk j _ => by rw [hafter k hk]
  rw [Grid.reduced, hechelon.reduceRows_eq, hafter i hi]

end ReducedStaircase

/-! ### The test and the reduction -/

/-- **A fixed point of the reduction is a reduced staircase**, where a fixed point is a grid in
which the same entries count as zero, and as one, as in its reduced form. -/
theorem Grid.exists_reducedStaircase_of_fixed [ZeroCountsAsZero K] [OneIsNonzero K]
    [OneCountsAsOne K]
    (hzero : ∀ i < r, ∀ j < c, Scalar.isZero (Grid.reduced r c f i j) = Scalar.isZero (f i j))
    (hone : ∀ i < r, ∀ j < c, Scalar.isOne (Grid.reduced r c f i j) = Scalar.isOne (f i j)) :
    ∃ rank pivot, ReducedStaircase f r c rank pivot := by
  obtain ⟨pivot, hechelon⟩ := Sweep.exists_staircase r f c
  have hreduced := hechelon.unitStaircase_reduceRows
  have hf : UnitStaircase f r c (Sweep.after r f c).rank pivot :=
    hreduced.congr (fun i hi j hj => (hzero i hi j hj).symm) fun i hi j hj => (hone i hi j hj).symm
  -- the forward pass leaves it alone, so back-substitution has it as a fixed point
  obtain ⟨hafter, -⟩ := hf.toStaircase.after_eq (le_refl c)
  have hunit : UnitStaircase (Sweep.after r f c).grid r c (Sweep.after r f c).rank pivot :=
    hf.congr (fun i hi j _ => by rw [hafter i hi]) fun i hi j _ => by rw [hafter i hi]
  have hfixed := hunit.reducedStaircase fun i hi j hj => by
    rw [hafter i hi]
    exact hzero i hi j hj
  exact ⟨_, pivot, hfixed.congr (fun i hi j _ => by rw [hafter i hi]) fun i hi j _ => by
    rw [hafter i hi]⟩

namespace DenseMatrix

/-- The reduced staircases are the matrices that count as their own reduced forms. -/
theorem exists_reducedStaircase_iff_reduced_equal [ZeroCountsAsZero K] [OneIsNonzero K]
    [OneCountsAsOne K] [ReflexiveEquality K] [EqualityRespectsTests K] {f : Grid K} :
    (∃ rank pivot, ReducedStaircase f r c rank pivot) ↔
      (tabulate r c (f.reduced r c)).equal (tabulate r c f) = true := by
  rw [equal_tabulate]
  constructor
  · rintro ⟨rank, pivot, hreduced⟩ i hi j -
    rw [hreduced.reduced_eq hi]
    exact equal_self _
  · intro hequal
    exact Grid.exists_reducedStaircase_of_fixed (fun i hi j hj => isZero_congr (hequal i hi j hj))
      fun i hi j hj => isOne_congr (hequal i hi j hj)

/-- **The test for reduced row echelon forms and the reduction agree**, for scalars without laws:
both always give a result, and the test accepts a matrix exactly if its reduced row echelon form
counts as the same matrix. -/
theorem isReducedRowEchelon_iff_reduced_equal [ZeroCountsAsZero K] [OneIsNonzero K]
    [OneCountsAsOne K] [ReflexiveEquality K] [EqualityRespectsTests K] {m : DenseMatrix K}
    (h : m.WellFormed) :
    ∃ accepted reduced, m.isReducedRowEchelon = .ok accepted ∧
      m.reducedRowEchelonForm.outcome = .ok reduced ∧
      (accepted = true ↔ reduced.equal m = true) := by
  obtain ⟨r, c, f, rfl⟩ : ∃ r c, ∃ f : Grid K, m = tabulate r c f :=
    ⟨_, _, _, eq_tabulate_entry h rfl rfl⟩
  obtain ⟨accepted, htest, haccepted⟩ := isReducedRowEchelon_iff (r := r) (c := c) f
  exact ⟨accepted, _, htest, reducedRowEchelonForm_tabulate f,
    haccepted.trans exists_reducedStaircase_iff_reduced_equal⟩

open Binary in
/-- A NaN to the right of a pivot is left alone, and so are negative zeros. An infinity above a
pivot is cleared, but its product with zero leaves a NaN above the next pivot. -/
theorem isReducedRowEchelon_of_nan_and_infinity :
    let m : DenseMatrix (Binary binary64) :=
      ⟨2, 3, #[one, nan, Binary.zero.neg, Binary.zero, Binary.zero.neg, one]⟩
    let n : DenseMatrix (Binary binary64) := ⟨3, 3, #[one, one.div Binary.zero, Binary.zero,
      Binary.zero, one, Binary.zero, Binary.zero, Binary.zero, one]⟩
    (∃ reduced, m.reducedRowEchelonForm.outcome = .ok reduced ∧ reduced.equal m = true) ∧
      ∃ reduced, n.reducedRowEchelonForm.outcome = .ok reduced ∧ reduced.equal n = false := by
  intro m n
  constructor
  · obtain ⟨accepted, reduced, htest, hreduced, hiff⟩ :=
      isReducedRowEchelon_iff_reduced_equal (m := m) (by decide)
    have haccepted : m.isReducedRowEchelon = .ok true := by decide +kernel
    exact ⟨reduced, hreduced, hiff.1 (Except.ok.inj (htest.symm.trans haccepted))⟩
  · obtain ⟨accepted, reduced, htest, hreduced, hiff⟩ :=
      isReducedRowEchelon_iff_reduced_equal (m := n) (by decide)
    have hrefused : n.isReducedRowEchelon = .ok false := by decide +kernel
    obtain rfl := Except.ok.inj (htest.symm.trans hrefused)
    exact ⟨reduced, hreduced, by simpa using hiff⟩

end DenseMatrix

end LinearSystems
