import LinearSystems.Proofs.Rational.Cramer
import LinearSystems.Proofs.Rational.Independence
import Mathlib.Tactic.TFAE

/-!
# Tests of singularity

Whether a square matrix is singular can be asked in many ways that share little: the product of a
diagonal, a number of pivots, the refusal of an inverse, the linear independence of the rows or of
the columns, the reduced form, and what the solver makes of a right-hand side. Over the rationals
all of them agree (`singularity_tests_agree`), for the matrix without entries too.

Each test is compared with the determinant of `f.corner n n`, and where the test rests on an
elimination this is done through the rank.
-/

namespace LinearSystems

open Matrix

variable {n : ℕ} {f : Grid ℚ}

namespace DenseMatrix

/-- The inverse is refused exactly if the determinant is zero. -/
theorem outcome_inverse_eq_singular_iff :
    (tabulate n n f).inverse.outcome = .error (.shape .singular) ↔ (f.corner n n).det = 0 := by
  refine ⟨fun h => ?_, inverse_tabulate_of_det_eq_zero⟩
  by_contra hdet
  obtain ⟨inv, hinv, -⟩ := exists_inverse_tabulate hdet
  rw [hinv] at h
  cases h

/-- The reduced form is the identity exactly if the determinant is not zero. -/
theorem isIdentity_reduced_iff :
    (tabulate n n (f.reduced n n)).isIdentity = true ↔ (f.corner n n).det ≠ 0 := by
  obtain ⟨pivot, -, hreduced⟩ := exists_reducedStaircase n n f
  have hfull := LinearSystem.isIdentity_iff hreduced
  rw [and_iff_right le_rfl] at hfull
  rw [hfull, ne_eq, ← Sweep.rank_lt_iff_det_eq_zero, Nat.not_lt]
  exact ⟨ge_of_eq, fun hle => le_antisymm hreduced.rank_le_ncols hle⟩

/-- The test for the identity accepts the identity only. -/
theorem isIdentity_iff_eq_identity {g : Grid ℚ} :
    (tabulate n n g).isIdentity = true ↔ tabulate n n g = identity n := by
  rw [isIdentity_tabulate, identity, rectangularIdentity, tabulate_inj]
  refine forall_congr' fun i => forall_congr' fun _ => ?_
  refine forall_congr' fun j => forall_congr' fun _ => ?_
  split_ifs
  · exact Rational.isOne_iff
  · exact Rational.isZero_iff

/-! ### Rows and columns -/

/-- The rows are independent exactly if the determinant is not zero. -/
theorem exists_areIndependent_rows (f : Grid ℚ) :
    ∃ b, (DenseVector.areIndependent ((List.range n).map fun i =>
        DenseVector.tabulate n (f i))).outcome = .ok b ∧
      (b = false ↔ (f.corner n n).det = 0) := by
  obtain ⟨b, hb, hiff⟩ := DenseVector.outcome_areIndependent_tabulate (n := n) (d := n) f
  refine ⟨b, hb, ?_⟩
  rw [← Bool.not_eq_true, hiff, linearIndependent_rows_iff_isUnit, isUnit_iff_isUnit_det,
    isUnit_iff_ne_zero, not_not]

/-- So are the columns, which are the rows of the transpose. -/
theorem exists_areIndependent_columns (f : Grid ℚ) :
    ∃ b, (DenseVector.areIndependent ((List.range n).map fun j =>
        DenseVector.tabulate n fun i => f i j)).outcome = .ok b ∧
      (b = false ↔ (f.corner n n).det = 0) := by
  have h := exists_areIndependent_rows (n := n) fun j i => f i j
  rwa [Grid.corner_transpose, det_transpose] at h

/-! ### Right-hand sides -/

/-- The solver returns no point for the right-hand side zero exactly if the determinant is zero. -/
theorem exists_solve_zero (f : Grid ℚ) :
    ∃ s, ((tabulate n n f).solve (DenseVector.zero n)).outcome = .ok s ∧
      ((∀ p, s ≠ .point p) ↔ (f.corner n n).det = 0) := by
  obtain ⟨s, -, hs, -⟩ := exists_describes_solve lt_columnLimit_of_eq_zero f fun _ => Scalar.zero
  rw [← DenseVector.zero_eq_tabulate] at hs
  refine ⟨s, hs, ?_⟩
  constructor
  · intro hnone
    by_contra hdet
    obtain ⟨x, hx⟩ := exists_solution_of_det_ne_zero f (DenseVector.zero n)
    have hproduct := hx (DenseVector.dim_zero n) hdet
    rw [DenseVector.zero_eq_tabulate] at hproduct hs
    have hpoint := outcome_solve_eq_point_iff.2 ⟨hdet, hproduct⟩
    exact hnone x (Except.ok.inj (hs.symm.trans hpoint))
  · rintro hdet p rfl
    rw [DenseVector.zero_eq_tabulate] at hs
    exact (outcome_solve_eq_point_iff.1 hs).1 hdet

/-- Some right-hand side has no solution exactly if the determinant is zero. -/
theorem exists_solve_eq_empty_iff :
    (∃ b : DenseVector ℚ, b.dim = n ∧ ((tabulate n n f).solve b).outcome = .ok .empty) ↔
      (f.corner n n).det = 0 := by
  -- the solver finds no solution if there is none
  have hempty : ∀ b : ℕ → ℚ,
      ((tabulate n n f).solve (DenseVector.tabulate n b)).outcome = .ok .empty ↔
        ¬∃ x, (tabulate n n f).mulVec x = .ok (DenseVector.tabulate n b) := by
    intro b
    obtain ⟨s, rank, hs, -, hdescribes⟩ := exists_describes_solve lt_columnLimit_of_eq_zero f b
    rw [hs, Except.ok.injEq]
    simp only [mulVec_eq_ok_iff_isSolution]
    exact hdescribes.eq_empty_iff
  constructor
  · rintro ⟨b, hdim, hb⟩
    by_contra hdet
    obtain ⟨x, hx⟩ := exists_solution_of_det_ne_zero f b
    have hproduct := hx hdim hdet
    rw [DenseVector.eq_tabulate_entry hdim] at hb hproduct
    exact (hempty _).1 hb ⟨x, hproduct⟩
  · intro hdet
    -- the products do not exhaust the vectors
    have hmissed : ¬Function.Surjective (f.corner n n).mulVec := by
      rw [mulVec_surjective_iff_isUnit, isUnit_iff_isUnit_det, hdet]
      exact not_isUnit_zero
    obtain ⟨w, hw⟩ := not_forall.1 hmissed
    obtain ⟨b, hb⟩ := Rational.exists_sequence w
    refine ⟨DenseVector.tabulate n b, DenseVector.dim_tabulate b, (hempty b).2 ?_⟩
    rintro ⟨x, hx⟩
    rw [DenseVector.eq_tabulate_entry (mulVec_eq_ok_iff.1 hx).1, mulVec_eq_ok_iff_corner] at hx
    exact hw ⟨_, hx.trans (funext hb)⟩

/-- **All tests of singularity agree.** For a square matrix, each of the computations succeeds, and
the following say the same: the determinant is zero; the rank falls short of the number of rows;
there is no inverse; the rows are dependent; the columns are dependent; the reduced form is not the
identity, compared with it or tested for it; the right-hand side zero has other solutions than a
point; and some right-hand side has no solution. -/
theorem singularity_tests_agree {m : DenseMatrix ℚ} (h : m.WellFormed)
    (hshape : m.shape = (n, n)) :
    ∃ det rank rows columns rowsIndependent columnsIndependent reduced s,
      m.determinant.outcome = .ok det ∧ m.rank.outcome = .ok rank ∧
      m.rows = .ok rows ∧ (DenseVector.areIndependent rows).outcome = .ok rowsIndependent ∧
      (List.range n).mapM m.colVector = .ok columns ∧
      (DenseVector.areIndependent columns).outcome = .ok columnsIndependent ∧
      m.reducedRowEchelonForm.outcome = .ok reduced ∧
      (m.solve (DenseVector.zero n)).outcome = .ok s ∧
      List.TFAE [det = 0, rank < n, m.inverse.outcome = .error (.shape .singular),
        rowsIndependent = false, columnsIndependent = false, reduced ≠ identity n,
        reduced.isIdentity = false, ∀ p, s ≠ .point p,
        ∃ b : DenseVector ℚ, b.dim = n ∧ (m.solve b).outcome = .ok .empty] := by
  obtain ⟨f, rfl⟩ : ∃ f, m = tabulate n n f :=
    ⟨_, eq_tabulate_entry h (Prod.ext_iff.1 hshape).1 (Prod.ext_iff.1 hshape).2⟩
  obtain ⟨rowsIndependent, hrows, hrowsiff⟩ := exists_areIndependent_rows (n := n) f
  obtain ⟨columnsIndependent, hcolumns, hcolumnsiff⟩ := exists_areIndependent_columns (n := n) f
  obtain ⟨s, hs, hpoint⟩ := exists_solve_zero (n := n) f
  refine ⟨_, _, _, _, rowsIndependent, columnsIndependent, _, s, determinant_tabulate f,
    rank_tabulate f, rows_tabulate f, hrows, mapM_colVector_tabulate f, hcolumns,
    reducedRowEchelonForm_tabulate f, hs, ?_⟩
  tfae_have 2 ↔ 1 := Sweep.rank_lt_iff_det_eq_zero n f
  tfae_have 3 ↔ 1 := outcome_inverse_eq_singular_iff
  tfae_have 4 ↔ 1 := hrowsiff
  tfae_have 5 ↔ 1 := hcolumnsiff
  tfae_have 7 ↔ 1 := by
    rw [← Bool.not_eq_true, isIdentity_reduced_iff, not_not]
  tfae_have 6 ↔ 7 := by
    rw [← Bool.not_eq_true, isIdentity_iff_eq_identity]
  tfae_have 8 ↔ 1 := hpoint
  tfae_have 9 ↔ 1 := exists_solve_eq_empty_iff
  tfae_finish

/-- Proportional rows make a matrix singular. The matrix without entries is not. -/
theorem singularity_of_proportional_rows :
    let a : DenseMatrix ℚ := ⟨2, 2, #[1, 2, 2, 4]⟩
    let e : DenseMatrix ℚ := ⟨0, 0, #[]⟩
    (a.inverse.outcome = .error (.shape .singular) ∧
      ∃ b : DenseVector ℚ, b.dim = 2 ∧ (a.solve b).outcome = .ok .empty) ∧
    ¬∃ b : DenseVector ℚ, b.dim = 0 ∧ (e.solve b).outcome = .ok .empty := by
  intro a e
  obtain ⟨det, _, _, _, _, _, _, _, hdet, -, -, -, -, -, -, -, htests⟩ :=
    singularity_tests_agree (m := a) (n := 2) (by decide) rfl
  have hzero : a.determinant.outcome = .ok 0 := by decide +kernel
  obtain rfl := Except.ok.inj (hdet.symm.trans hzero)
  obtain ⟨det, _, _, _, _, _, _, _, hdet, -, -, -, -, -, -, -, hempty⟩ :=
    singularity_tests_agree (m := e) (n := 0) (by decide) rfl
  have hone : e.determinant.outcome = .ok 1 := by decide +kernel
  obtain rfl := Except.ok.inj (hdet.symm.trans hone)
  exact ⟨⟨(htests.out 0 2).1 rfl, (htests.out 0 8).1 rfl⟩,
    fun h => one_ne_zero ((hempty.out 0 8).2 h)⟩

end DenseMatrix

end LinearSystems
