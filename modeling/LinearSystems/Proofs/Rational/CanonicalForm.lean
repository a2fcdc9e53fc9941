import LinearSystems.Proofs.Rational.Products
import LinearSystems.Proofs.Rational.ReducedForm
import Mathlib.Tactic.IntervalCases

/-!
# The reduced row echelon form is canonical

Over the rationals the reduced row echelon form of a matrix depends on nothing but the space that
its rows span, and matrices of one shape whose rows span different spaces have different reduced
forms. What an elimination chooses on its way, pivots and exchanges of rows, leaves no trace.

`RowsCombine` says in terms of entries that the rows of one matrix are linear combinations of the
rows of another.
-/

namespace LinearSystems.DenseMatrix

open Matrix

variable {r c : ℕ}

/-- Every row of one matrix is a linear combination of the rows of another. -/
def RowsCombine (a b : DenseMatrix ℚ) : Prop :=
  ∀ i < a.nrows, ∃ x : ℕ → ℚ, ∀ j < a.ncols,
    a.entry i j = ∑ k ∈ Finset.range b.nrows, x k * b.entry k j

/-- Rows are combinations of other rows if their space is contained in the space of the others. -/
theorem rowsCombine_iff (a b : DenseMatrix ℚ) :
    a.RowsCombine b ↔
      a.entry.rowSpace a.nrows a.ncols ≤ b.entry.rowSpace b.nrows a.ncols := by
  rw [Grid.rowSpace, Submodule.span_le, Set.range_subset_iff, Fin.forall_iff]
  exact forall₂_congr fun i _ => Grid.mem_rowSpace_iff.symm

/-- The reduced form of a row echelon form is the reduced form of the matrix. -/
theorem tabulate_reduced_after (f : Grid ℚ) :
    tabulate r c ((Sweep.after r f c).grid.reduced r c) = tabulate r c (f.reduced r c) := by
  refine tabulate_inj.2 ((reduced_agree_iff r c _ _).2 ?_)
  exact (rowEquivalent_after r c f c).rowSpace_eq.symm

/-- A factor with a left inverse does not change the reduced form. -/
theorem tabulate_reduced_mul {p q : DenseMatrix ℚ} (hp : p.WellFormed) (hq : q.WellFormed)
    (hpshape : p.shape = (r, r)) (hqshape : q.shape = (r, r)) (hinv : q.mul p = .ok (identity r))
    (f : Grid ℚ) :
    tabulate r c (Grid.reduced r c fun i j => ∑ k ∈ Finset.range r, p.entry i k * f k j)
      = tabulate r c (f.reduced r c) := by
  obtain ⟨rfl, hpcols⟩ := Prod.mk.inj hpshape
  obtain ⟨hqrows, hqcols⟩ := Prod.mk.inj hqshape
  rw [← tabulate_entry hp, ← tabulate_entry hq, hpcols, hqrows, hqcols,
    nrows_tabulate, mul_eq_identity_iff_corner] at hinv
  refine tabulate_inj.2 ((reduced_agree_iff _ c _ _).2 (RowEquivalent.rowSpace_eq ?_).symm)
  exact ⟨p.entry.corner p.nrows p.nrows, isUnit_det_of_left_inverse hinv,
    Grid.corner_mul p.entry f⟩

/-- The reduced form of a well-formed matrix is reduced. -/
theorem isReducedRowEchelon_reduced (r c : ℕ) (f : Grid ℚ) :
    (tabulate r c (f.reduced r c)).isReducedRowEchelon = .ok true := by
  obtain ⟨pivot, -, h⟩ := exists_reducedStaircase r c f
  exact isReducedRowEchelon_tabulate h

theorem reducedRowEchelonForm_eq_ok {m : DenseMatrix ℚ} (h : m.WellFormed) :
    m.reducedRowEchelonForm.outcome
      = .ok (tabulate m.nrows m.ncols (m.entry.reduced m.nrows m.ncols)) := by
  rw [← reducedRowEchelonForm_tabulate, tabulate_entry h]

/-- **The reduced row echelon form is a canonical form of the row space**: it is recognized as
reduced, two matrices of one shape have the same one exactly if the rows of each are linear
combinations of the rows of the other, and so neither an elimination beforehand nor an invertible
factor on the left changes it. -/
theorem reducedRowEchelonForm_canonical {a b : DenseMatrix ℚ} (ha : a.WellFormed)
    (hb : b.WellFormed) (hshape : a.shape = b.shape) :
    ∃ s t, a.reducedRowEchelonForm.outcome = .ok s ∧ b.reducedRowEchelonForm.outcome = .ok t ∧
      s.isReducedRowEchelon = .ok true ∧ t.isReducedRowEchelon = .ok true ∧
      (s.equal t = true ↔ a.RowsCombine b ∧ b.RowsCombine a) ∧
      (∃ e, a.rowEchelonForm.outcome = .ok e ∧ e.reducedRowEchelonForm.outcome = .ok s) ∧
      ∀ p q : DenseMatrix ℚ, p.WellFormed → q.WellFormed → p.shape = (a.nrows, a.nrows) →
        q.shape = (a.nrows, a.nrows) → q.mul p = .ok (identity a.nrows) →
          ∃ e, p.mul a = .ok e ∧ e.reducedRowEchelonForm.outcome = .ok s := by
  obtain ⟨hrows, hcols⟩ := Prod.mk.inj hshape
  refine ⟨_, _, reducedRowEchelonForm_eq_ok ha, reducedRowEchelonForm_eq_ok hb,
    isReducedRowEchelon_reduced _ _ _, isReducedRowEchelon_reduced _ _ _, ?_, ?_, ?_⟩
  · rw [equal_iff, ← hrows, ← hcols, tabulate_inj, reduced_agree_iff, rowsCombine_iff,
      rowsCombine_iff, ← hrows, ← hcols, le_antisymm_iff]
  · refine ⟨_, by rw [← tabulate_entry ha, rowEchelonForm_tabulate], ?_⟩
    rw [reducedRowEchelonForm_tabulate, tabulate_reduced_after]
  · -- the product has the shape of the matrix, and its rows span the same space
    intro p q hp hq hpshape hqshape hinv
    obtain ⟨hprows, hpcols⟩ := Prod.mk.inj hpshape
    refine ⟨tabulate a.nrows a.ncols fun i j =>
      ∑ k ∈ Finset.range a.nrows, p.entry i k * a.entry k j, ?_, ?_⟩
    · rw [← mul_tabulate, tabulate_entry ha]
      conv_lhs => rw [← tabulate_entry hp, hprows, hpcols]
    · rw [reducedRowEchelonForm_tabulate, tabulate_reduced_mul hp hq hpshape hqshape hinv]

/-- The rows `(1, 2), (2, 4)` and the rows `(0, 0), (3, 6)` span the same line, so the matrices
have the same reduced form. -/
theorem reducedRowEchelonForm_of_same_line :
    let a : DenseMatrix ℚ := ⟨2, 2, #[1, 2, 2, 4]⟩
    let b : DenseMatrix ℚ := ⟨2, 2, #[0, 0, 3, 6]⟩
    ∃ s, a.reducedRowEchelonForm.outcome = .ok s ∧ b.reducedRowEchelonForm.outcome = .ok s := by
  intro a b
  obtain ⟨s, t, hs, ht, -, -, hiff, -⟩ :=
    reducedRowEchelonForm_canonical (a := a) (b := b) (by decide) (by decide) rfl
  have hab : RowsCombine a b := by
    intro i hi
    refine ⟨fun _ => (i + 1) / 3, fun j hj => ?_⟩
    interval_cases i <;> interval_cases j <;>
      norm_num [a, b, entry, linearPosition, Finset.sum_range_succ]
  have hba : RowsCombine b a := by
    intro i hi
    refine ⟨fun _ => i, fun j hj => ?_⟩
    interval_cases i <;> interval_cases j <;>
      norm_num [a, b, entry, linearPosition, Finset.sum_range_succ]
  rw [equal_iff.1 (hiff.2 ⟨hab, hba⟩)] at hs
  exact ⟨t, hs, ht⟩

end LinearSystems.DenseMatrix
