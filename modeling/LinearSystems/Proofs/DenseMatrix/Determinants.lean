import LinearSystems.Proofs.DenseMatrix.Cofactors
import LinearSystems.Proofs.Elimination.BackSubstitution

/-!
# Determinants, adjugates and inverses of grids

What the operations that rest on determinants return, for scalars without laws. Nothing is said
about the values: without a field there is no equation that they satisfy. But every square matrix
has both determinants, a matrix of minors and an adjugate, and a matrix that is not square is
refused by name. An inverse and a solution by Cramer's rule exist exactly if the determinant that
was computed does not count as zero, so the one reciprocal that is taken is that of an element which
was tested before.

The expansion along the first row ends in three small sizes, where it reads single entries; in the
others it reads the first row and the minors, which are square again.
-/

namespace LinearSystems.DenseMatrix

variable {K : Type} {r c n : ℕ}

theorem isSquare_iff {m : DenseMatrix K} : m.isSquare = true ↔ m.nrows = m.ncols :=
  beq_iff_eq

theorem isSquare_tabulate (f : Grid K) : (tabulate n n f).isSquare = true :=
  isSquare_iff.2 rfl

variable [Scalar K]

/-- A matrix whose entries can all be computed is a tabulation. -/
theorem exists_tabulateM {f : ℕ → ℕ → Except Fault K}
    (h : ∀ i < r, ∀ j < c, ∃ e, f i j = .ok e) :
    ∃ g : Grid K, tabulateM r c f = .ok (tabulate r c g) := by
  have : Inhabited K := ⟨Scalar.zero⟩
  choose! g hg using h
  exact ⟨g, tabulateM_eq_ok hg⟩

/-! ### Determinants -/

theorem diagonalProduct_eq_foldl (f : Grid K) :
    (tabulate n n f).diagonalProduct
      = .ok ((List.range n).foldl (fun product x => Scalar.mul product (f x x)) Scalar.one) := by
  refine foldlM_eq_ok (fun product x hx => ?_) _
  have hlt : x < n := List.mem_range.1 hx
  rw [get_tabulate f hlt hlt, ok_bind, pure_eq_ok]

/-- The determinant is the product of the diagonal that the elimination leaves, up to its sign. -/
theorem outcome_determinant_tabulate (f : Grid K) :
    (tabulate n n f).determinant.outcome
      = .ok (if ((Sweep.after n f n).toElimination n n).isOdd then
          Scalar.neg ((List.range n).foldl
            (fun product x => Scalar.mul product ((Sweep.after n f n).grid x x)) Scalar.one)
        else (List.range n).foldl
            (fun product x => Scalar.mul product ((Sweep.after n f n).grid x x)) Scalar.one) := by
  rw [determinant, if_pos (isSquare_tabulate f), Traced.outcome_bind, eliminate_tabulate, ok_bind,
    Traced.outcome_bind, Traced.outcome_lift, Sweep.toElimination, diagonalProduct_eq_foldl,
    ok_bind, Traced.outcome_pure]

/-- **Every square matrix has a determinant.** -/
theorem exists_determinant_tabulate (f : Grid K) :
    ∃ det, (tabulate n n f).determinant.outcome = .ok det :=
  ⟨_, outcome_determinant_tabulate f⟩

/-- A matrix that is not square has no determinant. -/
theorem outcome_determinant_of_ne {m : DenseMatrix K} (h : m.nrows ≠ m.ncols) :
    m.determinant.outcome = .error (.shape (.notSquare m.nrows m.ncols)) := by
  rw [determinant, if_neg (mt isSquare_iff.1 h), Traced.outcome_fail, notSquare]

/-- Every square matrix has a matrix of minors. -/
theorem exists_minorMatrix_tabulate (f : Grid K) :
    ∃ g : Grid K, (tabulate n n f).minorMatrix.outcome = .ok (tabulate n n g) := by
  rw [minorMatrix, if_pos (isSquare_tabulate f), outcome_tabulateM]
  refine exists_tabulateM fun i (hi : i < n) j (hj : j < n) => ?_
  rw [Traced.outcome_bind, Traced.outcome_lift, minor_tabulate f hi hj, ok_bind]
  exact exists_determinant_tabulate _

theorem outcome_minorMatrix_of_ne {m : DenseMatrix K} (h : m.nrows ≠ m.ncols) :
    m.minorMatrix.outcome = .error (.shape (.notSquare m.nrows m.ncols)) := by
  rw [minorMatrix, if_neg (mt isSquare_iff.1 h), Traced.outcome_fail, notSquare]

/-- **Every square matrix has an adjugate.** -/
theorem exists_adjugate_tabulate (f : Grid K) :
    ∃ g : Grid K, (tabulate n n f).adjugate.outcome = .ok (tabulate n n g) := by
  obtain ⟨g, hg⟩ := exists_minorMatrix_tabulate (n := n) f
  rw [adjugate, Traced.outcome_bind, hg, ok_bind, Traced.outcome_lift, cofactor_tabulate,
    transpose_tabulate]
  exact ⟨_, rfl⟩

/-- A matrix that is not square has no adjugate. -/
theorem outcome_adjugate_of_ne {m : DenseMatrix K} (h : m.nrows ≠ m.ncols) :
    m.adjugate.outcome = .error (.shape (.notSquare m.nrows m.ncols)) := by
  rw [adjugate, Traced.outcome_bind, outcome_minorMatrix_of_ne h, error_bind]

/-! ### Inverses -/

/-- A matrix that is not square has no inverse. -/
theorem outcome_inverse_of_ne {m : DenseMatrix K} (h : m.nrows ≠ m.ncols) :
    m.inverse.outcome = .error (.shape (.notSquare m.nrows m.ncols)) := by
  rw [inverse, Traced.outcome_bind, outcome_determinant_of_ne h, error_bind]

/-- A matrix whose determinant counts as zero is refused. -/
theorem outcome_inverse_of_isZero {m : DenseMatrix K} {det : K}
    (hdet : m.determinant.outcome = .ok det) (hzero : Scalar.isZero det = true) :
    m.inverse.outcome = .error (.shape .singular) := by
  rw [inverse, Traced.outcome_bind, hdet, ok_bind, if_pos hzero, Traced.outcome_fail]

/-- **A matrix whose determinant does not count as zero has an inverse.** -/
theorem exists_inverse_of_nonzero {f : Grid K} {det : K}
    (hdet : (tabulate n n f).determinant.outcome = .ok det) (hzero : Scalar.isZero det = false) :
    ∃ g : Grid K, (tabulate n n f).inverse.outcome = .ok (tabulate n n g) := by
  obtain ⟨g, hg⟩ := exists_adjugate_tabulate (n := n) f
  rw [inverse, Traced.outcome_bind, hdet, ok_bind, if_neg (Bool.eq_false_iff.1 hzero),
    Traced.outcome_bind, hg, ok_bind, Traced.outcome_bind, Traced.outcome_lift,
    Scalar.pivotInverse_of_nonzero hzero, ok_bind, Traced.outcome_pure, scale_tabulate]
  exact ⟨_, rfl⟩

/-! ### Cramer's rule -/

section Cramer

variable {m : DenseMatrix K} {b : DenseVector K} {det : K}

/-- The dimensions are compared after the determinant was computed. -/
theorem outcome_solveCramer_of_dim_ne (hdet : m.determinant.outcome = .ok det)
    (hdim : b.dim ≠ m.nrows) :
    (m.solveCramer b).outcome = .error (.columnMismatch m.nrows b.dim) := by
  rw [solveCramer, Traced.outcome_bind, hdet, ok_bind, if_pos hdim, Traced.outcome_fail]

/-- A matrix whose determinant counts as zero is refused. -/
theorem outcome_solveCramer_of_isZero (hdet : m.determinant.outcome = .ok det)
    (hdim : b.dim = m.nrows) (hzero : Scalar.isZero det = true) :
    (m.solveCramer b).outcome = .error (.shape .singular) := by
  rw [solveCramer, Traced.outcome_bind, hdet, ok_bind, if_neg (not_not.2 hdim), if_pos hzero,
    Traced.outcome_fail]

end Cramer

end LinearSystems.DenseMatrix
