import LinearSystems.Proofs.Rational.ReducedForm
import Mathlib.LinearAlgebra.Matrix.Rank

/-!
# The rank of a rational matrix

Over the rationals the number of pivots is the dimension of the row space: the rows of a reduced
staircase that have a pivot are linearly independent, the others are zero, and an invertible factor
on the left keeps the rank. So the rank that an elimination counts is `Matrix.rank`
(`Sweep.rank_after`), and whatever is known of the latter holds of the former, such as that a matrix
and its transpose have the same rank.

The rows of a matrix are linearly independent exactly if the rank is their number
(`linearIndependent_row_iff`).
-/

namespace LinearSystems

open Matrix

variable {r c : ℕ}

/-- The rows of a matrix are linearly independent exactly if the rank is their number. -/
theorem linearIndependent_row_iff (M : Matrix (Fin r) (Fin c) ℚ) :
    LinearIndependent ℚ M.row ↔ M.rank = r := by
  rw [linearIndependent_iff_card_eq_finrank_span, Fintype.card_fin, Set.finrank,
    rank_eq_finrank_span_row, eq_comm]

/-- The rank is the dimension of the row space. -/
theorem Grid.finrank_rowSpace (f : Grid ℚ) :
    Module.finrank ℚ (f.rowSpace r c) = (f.corner r c).rank :=
  (rank_eq_finrank_span_row (f.corner r c)).symm

/-- Row equivalent matrices have the same rank. -/
theorem RowEquivalent.rank_eq {M N : Matrix (Fin r) (Fin c) ℚ} (h : RowEquivalent M N) :
    N.rank = M.rank := by
  obtain ⟨P, hP, rfl⟩ := h
  exact rank_mul_eq_right_of_isUnit_det P M hP

namespace ReducedStaircase

variable {f : Grid ℚ} {rank : ℕ} {pivot : ℕ → ℕ}

/-- **The rows with a pivot are linearly independent**: each of them is the only one that is not
zero in the column of its pivot. -/
theorem linearIndependent_rows (h : ReducedStaircase f r c rank pivot) :
    LinearIndependent ℚ fun (i : Fin rank) (j : Fin c) => f i j := by
  rw [Fintype.linearIndependent_iff]
  intro x hx k
  have hcolumn := congrFun hx (h.pivotColumn k)
  simp only [Finset.sum_apply, Pi.smul_apply, smul_eq_mul, pivotColumn,
    h.entry_pivot k.isLt ((Fin.is_lt _).trans_le h.rank_le), Pi.zero_apply] at hcolumn
  rw [Finset.sum_eq_single_of_mem k (Finset.mem_univ k) fun i _ hi => by
    rw [if_neg (Fin.val_ne_of_ne hi), mul_zero], if_pos rfl, mul_one] at hcolumn
  exact hcolumn

/-- The rows with a pivot span the row space. -/
theorem rowSpace_eq_span (h : ReducedStaircase f r c rank pivot) :
    f.rowSpace r c = Submodule.span ℚ (Set.range fun (i : Fin rank) (j : Fin c) => f i j) := by
  refine le_antisymm (Submodule.span_le.2 ?_) (Submodule.span_le.2 ?_)
  · rintro _ ⟨i, rfl⟩
    rcases Nat.lt_or_ge i rank with hi | hi
    · exact Submodule.subset_span ⟨⟨i, hi⟩, rfl⟩
    · have hzero : (f.corner r c).row i = 0 := by
        funext j
        exact Rational.isZero_iff.1 (h.zero_below i hi i.isLt j j.isLt)
      rw [hzero]
      exact Submodule.zero_mem _
  · rintro _ ⟨i, rfl⟩
    exact h.row_mem_rowSpace i.isLt

theorem rank_corner (h : ReducedStaircase f r c rank pivot) : (f.corner r c).rank = rank := by
  rw [← Grid.finrank_rowSpace, h.rowSpace_eq_span,
    finrank_span_eq_card h.linearIndependent_rows, Fintype.card_fin]

end ReducedStaircase

/-- **An elimination counts the rank.** -/
theorem Sweep.rank_after (r c : ℕ) (f : Grid ℚ) : (after r f c).rank = (f.corner r c).rank := by
  obtain ⟨pivot, -, hreduced⟩ := exists_reducedStaircase r c f
  rw [← hreduced.rank_corner, (rowEquivalent_reduced r c f).rank_eq]

theorem DenseMatrix.outcome_rank_tabulate (f : Grid ℚ) :
    (tabulate r c f).rank.outcome = .ok (f.corner r c).rank := by
  rw [rank_tabulate, Sweep.rank_after]

end LinearSystems
