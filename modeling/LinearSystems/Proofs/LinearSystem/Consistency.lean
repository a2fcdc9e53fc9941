import LinearSystems.Proofs.LinearSystem.Resolution
import LinearSystems.Proofs.Binary.Scalar

/-!
# Two tests of consistency

`LinearSystem.isConsistent` compares the ranks that two eliminations find, that of the coefficients
and that of the augmented matrix. `LinearSystem.solution` looks at the reduced augmented matrix for
a row that demands the impossible. The two agree for scalars without laws
(`isConsistent_iff_solution_ne_empty`). An elimination goes through the columns from left to right,
so that of the augmented matrix is that of the coefficients and one more step, and the row that
demands the impossible is the one in which that step finds a pivot.

It is only used that zero counts as zero and one does not, so the coefficients and the constants may
be NaNs and infinities.
-/

namespace LinearSystems

variable {K : Type} [Scalar K] {r c : ℕ}

/-- **The rank of a staircase is determined by its grid**: it counts the rows that have a leading
entry. -/
theorem Staircase.rank_unique {f : Grid K} {rank rank' : ℕ} {pivot pivot' : ℕ → ℕ}
    (h : Staircase f r c rank pivot) (h' : Staircase f r c rank' pivot') : rank = rank' := by
  -- the first row behind the smaller rank would have a leading entry and none
  rcases Nat.lt_trichotomy rank rank' with hlt | rfl | hgt
  · have hnone := h.leading?_of_le (Nat.le_refl rank) (hlt.trans_le h'.rank_le)
    rw [h'.leading?_of_lt hlt] at hnone
    cases hnone
  · rfl
  · have hnone := h'.leading?_of_le (Nat.le_refl rank') (hgt.trans_le h.rank_le)
    rw [h.leading?_of_lt hgt] at hnone
    cases hnone

namespace LinearSystem

open Binary DenseMatrix

/-! ### The comparison of the ranks -/

theorem isConsistent_tabulate (f : Grid K) :
    (isConsistent ⟨tabulate r (c + 1) f⟩).outcome
      = .ok ((Sweep.after r f c).rank == (Sweep.after r f (c + 1)).rank) := by
  simp only [isConsistent, coefficients, nvars, ncols_tabulate, Nat.add_sub_cancel,
    splitAtCol_augmented, map_ok, Traced.outcome_bind, Traced.outcome_lift, ok_bind,
    rank_tabulate, Traced.outcome_pure]

variable [ZeroCountsAsZero K] [OneIsNonzero K]

/-- **The inspection compares the same ranks**: it counts the pivots of the coefficients if the
augmented matrix has no other, and else it stops at the row behind them. -/
theorem inspect_eq_ite_rank (r c : ℕ) (f : Grid K) :
    inspect (tabulate r c (f.reduced r (c + 1)))
        (DenseVector.tabulate r fun i => f.reduced r (c + 1) i c) 0 0 r
      = .ok (if (Sweep.after r f c).rank = (Sweep.after r f (c + 1)).rank
          then .consistent (Sweep.after r f c).rank
          else .inconsistent (Sweep.after r f c).rank) := by
  obtain ⟨pivot, ⟨hafter, hlt, hsame⟩ | ⟨hafter, hlast⟩⟩ := Sweep.exists_staircase_succ r c f
  · rw [if_pos (by rw [hsame])]
    exact inspect_of_pivot_lt (hafter.reduceRows le_rfl) hlt
  · -- the step over the constants found one more pivot
    obtain ⟨wide, hwide⟩ := Sweep.exists_staircase r f (c + 1)
    have hrank : (Sweep.after r f c).rank + 1 = (Sweep.after r f (c + 1)).rank :=
      hafter.rank_unique hwide
    rw [if_neg (by omega)]
    exact inspect_of_pivot_eq (hafter.reduceRows le_rfl) hlast

/-- **The comparison of the ranks decides whether there is a solution**, for scalars without laws.
Both computations succeed for a system with at least one column, and the first says yes exactly if
the second does not return the empty set. The order in which the terms of linear forms are visited
plays no part. -/
theorem isConsistent_iff_solution_ne_empty {e : LinearSystem K} (h : e.matrix.WellFormed)
    (hcols : 0 < e.matrix.ncols) (visit : LinearForm K → List (Parameter × K)) :
    ∃ b s, e.isConsistent.outcome = .ok b ∧ (e.solutionVia visit).outcome = .ok s ∧
      (b = true ↔ s ≠ .empty) := by
  obtain ⟨r, c, f, rfl⟩ : ∃ r c, ∃ f : Grid K, e = ⟨tabulate r (c + 1) f⟩ :=
    ⟨_, _, _, congrArg mk (eq_tabulate_entry h rfl (Nat.succ_pred_eq_of_pos hcols).symm)⟩
  have hverdict := inspect_eq_ite_rank r c f
  split_ifs at hverdict with hrank
  · refine ⟨_, _, isConsistent_tabulate f, solutionVia_of_consistent visit hverdict, ?_⟩
    refine iff_of_true (beq_iff_eq.2 hrank) ?_
    split_ifs <;> exact nofun
  · refine ⟨_, _, isConsistent_tabulate f, solutionVia_of_inconsistent visit hverdict, ?_⟩
    exact iff_of_false (fun heq => hrank (beq_iff_eq.1 heq)) fun hne => hne rfl

/-- A NaN does not count as zero: `0 * x = NaN` has no solution, and `NaN * x = NaN` has one. -/
theorem solution_of_nan_constant :
    let e : LinearSystem (Binary binary64) := ⟨⟨1, 2, #[zero, nan]⟩⟩
    let e' : LinearSystem (Binary binary64) := ⟨⟨1, 2, #[nan, nan]⟩⟩
    e.solution.outcome = .ok .empty ∧ ∃ s, e'.solution.outcome = .ok s ∧ s ≠ .empty := by
  intro e e'
  obtain ⟨b, s, hb, hs, hiff⟩ := isConsistent_iff_solution_ne_empty (e := e) (by decide)
    (by decide) LinearForm.terms
  obtain ⟨b', s', hb', hs', hiff'⟩ := isConsistent_iff_solution_ne_empty (e := e') (by decide)
    (by decide) LinearForm.terms
  have hno : e.isConsistent.outcome = .ok false := by decide +kernel
  have hyes : e'.isConsistent.outcome = .ok true := by decide +kernel
  obtain rfl := Except.ok.inj (hb.symm.trans hno)
  obtain rfl := Except.ok.inj (hb'.symm.trans hyes)
  obtain rfl : s = .empty := by simpa using hiff
  exact ⟨hs, s', hs', hiff'.1 rfl⟩

end LinearSystem

end LinearSystems
