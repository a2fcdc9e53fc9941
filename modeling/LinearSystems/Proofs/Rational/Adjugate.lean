import LinearSystems.Proofs.Rational.Determinant
import Mathlib.LinearAlgebra.Matrix.Adjugate

/-!
# Adjugates and inverses of rational matrices

Over the rationals the adjugate is the adjugate of linear algebra (`Grid.corner_adjugate`), so
the product with the matrix is the determinant on the diagonal, from either side and also if the
matrix is singular. The inverse is a two-sided inverse wherever the determinant is not zero.

The equation of the two adjugates is one of entries: the minor at `(j, i)` has the determinant of
the submatrix without row `j` and column `i`, the sign of the cofactor depends on `i + j` alone, and
the transposition exchanges the two. A matrix without rows has no minors and needs none.
-/

namespace LinearSystems

open Matrix

variable {n : ℕ}

namespace Grid

/-- The determinants of the minors of a square grid. -/
def minors (n : ℕ) (f : Grid ℚ) : Grid ℚ := fun i j =>
  (corner (n - 1) (n - 1) fun a b => f (skip i a) (skip j b)).det

/-- The cofactors of a square grid, transposed. -/
def adjugate (n : ℕ) (f : Grid ℚ) : Grid ℚ := fun i j =>
  if (j + i) % 2 = 1 then -f.minors n j i else f.minors n j i

/-- The transposed cofactors are the adjugate. -/
theorem corner_adjugate (n : ℕ) (f : Grid ℚ) :
    (f.adjugate n).corner n n = (f.corner n n).adjugate := by
  rcases n with _ | n
  · ext i
    exact i.elim0
  · ext i j
    rw [corner_apply, adjugate, minors, Nat.add_sub_cancel, DenseMatrix.corner_skip,
      adjugate_fin_succ_eq_det_submatrix]
    -- the sign of the cofactor is the power of minus one
    rcases Nat.even_or_odd ((j : ℕ) + i) with heven | hodd
    · rw [if_neg (by rw [Nat.even_iff.1 heven]; decide), heven.neg_one_pow, one_mul]
    · rw [if_pos (Nat.odd_iff.1 hodd), hodd.neg_one_pow, neg_one_mul]

end Grid

namespace DenseMatrix

/-- A product that is a multiple of the identity. -/
theorem mul_eq_scale_identity_iff_corner {f g : Grid ℚ} {x : ℚ} :
    (tabulate n n f).mul (tabulate n n g) = .ok ((identity n).scale x)
      ↔ f.corner n n * g.corner n n = x • 1 := by
  have hcorner : Grid.corner n n (fun i j => (if i = j then 1 else 0) * x) = x • 1 := by
    rw [← Grid.corner_identity]
    ext i j
    rw [Grid.corner_apply, Matrix.smul_apply, Grid.corner_apply, smul_eq_mul, mul_comm]
  rw [← hcorner, identity, rectangularIdentity, scale_tabulate]
  exact mul_eq_ok_iff_corner

/-! ### The adjugate -/

/-- The determinants of all minors. -/
theorem minorMatrix_tabulate (f : Grid ℚ) :
    (tabulate n n f).minorMatrix.outcome = .ok (tabulate n n (f.minors n)) := by
  have hminor : ∀ i < n, ∀ j < n,
      (do (← (tabulate n n f).minor i j).determinant : Traced ℚ).outcome
        = .ok (f.minors n i j) := by
    intro i hi j hj
    rw [Traced.outcome_bind, Traced.outcome_lift, minor_tabulate f hi hj, ok_bind,
      determinant_tabulate, Grid.minors]
  rw [minorMatrix, if_pos (by simp [isSquare]), outcome_tabulateM]
  exact tabulateM_eq_ok hminor

/-- **The adjugate is the adjugate of linear algebra.** -/
theorem adjugate_tabulate (f : Grid ℚ) :
    (tabulate n n f).adjugate.outcome = .ok (tabulate n n (f.adjugate n)) := by
  rw [adjugate, Traced.outcome_bind, minorMatrix_tabulate, ok_bind, Traced.outcome_lift,
    cofactor_tabulate, transpose_tabulate]
  rfl

/-! ### The inverse -/

/-- A matrix whose determinant is zero is refused. -/
theorem inverse_tabulate_of_det_eq_zero {f : Grid ℚ} (h : (f.corner n n).det = 0) :
    (tabulate n n f).inverse.outcome = .error (.shape .singular) :=
  outcome_inverse_of_isZero (determinant_tabulate f) (Rational.isZero_iff.2 h)

/-- The inverse is the multiple of the adjugate by the reciprocal of the determinant. -/
theorem exists_inverse_tabulate {f : Grid ℚ} (h : (f.corner n n).det ≠ 0) :
    ∃ g : Grid ℚ, (tabulate n n f).inverse.outcome = .ok (tabulate n n g) ∧
      g.corner n n = (f.corner n n).det⁻¹ • (f.corner n n).adjugate := by
  have hzero : Scalar.isZero (f.corner n n).det = false := Rational.isZero_eq_false_iff.2 h
  refine ⟨fun i j => f.adjugate n i j * (f.corner n n).det⁻¹, ?_, ?_⟩
  · rw [inverse, Traced.outcome_bind, determinant_tabulate, ok_bind,
      if_neg (by rw [hzero]; exact Bool.false_ne_true), Traced.outcome_bind, adjugate_tabulate,
      ok_bind, Traced.outcome_bind, Traced.outcome_lift, Scalar.pivotInverse_of_nonzero hzero,
      ok_bind, Traced.outcome_pure, scale_tabulate]
    rfl
  · ext i j
    rw [Matrix.smul_apply, ← Grid.corner_adjugate, smul_eq_mul, mul_comm]
    rfl

/-! ### The identities -/

/-- **The adjugate times the matrix is the determinant times the identity**, from either side and
for every square matrix, the singular ones and the one without entries included. A matrix whose
determinant is not zero has a two-sided inverse, any other square matrix is refused as singular,
and a matrix that is not square has neither adjugate nor inverse. -/
theorem adjugate_and_inverse_identities {m : DenseMatrix ℚ} (h : m.WellFormed) :
    (∀ n, m.shape = (n, n) → ∃ adj det,
      m.adjugate.outcome = .ok adj ∧ m.determinant.outcome = .ok det ∧
      m.mul adj = .ok ((identity n).scale det) ∧ adj.mul m = .ok ((identity n).scale det) ∧
      (det ≠ 0 → ∃ inv, m.inverse.outcome = .ok inv ∧ m.mul inv = .ok (identity n) ∧
        inv.mul m = .ok (identity n)) ∧
      (det = 0 → m.inverse.outcome = .error (.shape .singular))) ∧
    (m.nrows ≠ m.ncols →
      m.adjugate.outcome = .error (.shape (.notSquare m.nrows m.ncols)) ∧
      m.inverse.outcome = .error (.shape (.notSquare m.nrows m.ncols))) := by
  constructor
  · intro n hshape
    obtain ⟨hrows, hcols⟩ := Prod.mk.inj hshape
    rw [eq_tabulate_entry h hrows hcols]
    generalize m.entry = f
    refine ⟨_, _, adjugate_tabulate f, determinant_tabulate f, ?_, ?_, fun hdet => ?_,
      inverse_tabulate_of_det_eq_zero⟩
    · rw [mul_eq_scale_identity_iff_corner, Grid.corner_adjugate, mul_adjugate]
    · rw [mul_eq_scale_identity_iff_corner, Grid.corner_adjugate, adjugate_mul]
    · obtain ⟨inv, hinv, hinvcorner⟩ := exists_inverse_tabulate hdet
      refine ⟨_, hinv, ?_, ?_⟩
      · rw [mul_eq_identity_iff_corner, hinvcorner, mul_smul_comm, mul_adjugate, smul_smul,
          inv_mul_cancel₀ hdet, one_smul]
      · rw [mul_eq_identity_iff_corner, hinvcorner, smul_mul_assoc, adjugate_mul, smul_smul,
          inv_mul_cancel₀ hdet, one_smul]
  · intro hne
    exact ⟨outcome_adjugate_of_ne hne, outcome_inverse_of_ne hne⟩

/-- A matrix with determinant `-1` and its inverse, and a singular matrix with its adjugate. -/
theorem adjugate_of_regular_and_singular :
    let a : DenseMatrix ℚ := ⟨2, 2, #[1, 2, 3, 5]⟩
    let b : DenseMatrix ℚ := ⟨2, 2, #[1, 2, 2, 4]⟩
    (∃ inv, a.inverse.outcome = .ok inv ∧ a.mul inv = .ok (identity 2)) ∧
      b.inverse.outcome = .error (.shape .singular) ∧
      ∃ adj, b.adjugate.outcome = .ok adj ∧ b.mul adj = .ok ((identity 2).scale 0) := by
  intro a b
  obtain ⟨-, det, -, hdet, -, -, hinverse, -⟩ :=
    (adjugate_and_inverse_identities (m := a) (by decide)).1 2 rfl
  have hregular : a.determinant.outcome = .ok (-1) := by decide +kernel
  obtain rfl : det = -1 := Except.ok.inj (hdet.symm.trans hregular)
  obtain ⟨adj, det, hadj, hdet', hright, -, -, hnone⟩ :=
    (adjugate_and_inverse_identities (m := b) (by decide)).1 2 rfl
  have hsingular : b.determinant.outcome = .ok 0 := by decide +kernel
  obtain rfl : det = 0 := Except.ok.inj (hdet'.symm.trans hsingular)
  obtain ⟨inv, hinv, hproduct, -⟩ := hinverse (by norm_num)
  exact ⟨⟨inv, hinv, hproduct⟩, hnone rfl, adj, hadj, hright⟩

end DenseMatrix

end LinearSystems
