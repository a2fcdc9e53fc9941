import LinearSystems.Proofs.Rational.Adjugate
import LinearSystems.Proofs.Rational.Solve

/-!
# Cramer's rule, the inverse and the solver

Three ways to solve a square system share no step: a determinant for each replaced column, the
adjugate of all minors, and the reduced form with its free unknowns. Over the rationals each of them
gives a vector whose product is the right-hand side (`exists_solveCramer_tabulate`,
`exists_solveByInverse_tabulate`, `outcome_solve_eq_point_iff`), and if the determinant is not zero
there is only one such vector (`eq_of_mulVec_eq`). So they agree.

A matrix is singular for the determinant if and only if it is for the rank
(`Sweep.rank_lt_iff_det_eq_zero`). `solvers_agree` also says which of several causes is reported:
Cramer's rule compares the dimensions before it looks at the determinant, and the inverse after.
-/

namespace LinearSystems

open Matrix

variable {n : ℕ}

/-- **A square matrix lacks a pivot exactly if its determinant is zero.** -/
theorem Sweep.rank_lt_iff_det_eq_zero (n : ℕ) (f : Grid ℚ) :
    (after n f n).rank < n ↔ (f.corner n n).det = 0 := by
  obtain ⟨pivot, hstair⟩ := exists_staircase n f n
  have hsign : ((-1) ^ (after n f n).swaps.length : ℚ) ≠ 0 :=
    pow_ne_zero _ (neg_ne_zero.2 one_ne_zero)
  have hdiagonal : ∏ i ∈ Finset.range n, (after n f n).grid i i = 0 ↔ (f.corner n n).det = 0 := by
    rw [prod_diagonal_after, mul_eq_zero, or_iff_right hsign]
  rw [← hdiagonal, Finset.prod_eq_zero_iff]
  constructor
  · -- the first row without a pivot is zero, on the diagonal as elsewhere
    intro hlt
    exact ⟨_, Finset.mem_range.2 hlt, Rational.isZero_iff.1 (hstair.zero_below _ le_rfl hlt _ hlt)⟩
  · rintro ⟨i, hi, hzero⟩
    by_contra hfull
    have hrank : (after n f n).rank = n := le_antisymm hstair.rank_le (Nat.not_lt.1 hfull)
    have hlt : i < n := Finset.mem_range.1 hi
    rw [hrank] at hstair
    have hpivot := hstair.pivot_ne_zero hlt
    rw [hstair.pivot_eq_self hlt] at hpivot
    exact hpivot hzero

namespace DenseMatrix

variable {f : Grid ℚ}

/-! ### At most one solution -/

/-- If the determinant is not zero, a product determines the vector. -/
theorem eq_of_mulVec_eq (hdet : (f.corner n n).det ≠ 0) {b : ℕ → ℚ} {x y : DenseVector ℚ}
    (hx : (tabulate n n f).mulVec x = .ok (DenseVector.tabulate n b))
    (hy : (tabulate n n f).mulVec y = .ok (DenseVector.tabulate n b)) : x = y := by
  have hxdim := (mulVec_eq_ok_iff.1 hx).1
  have hydim := (mulVec_eq_ok_iff.1 hy).1
  have hxtab := DenseVector.eq_tabulate_entry hxdim
  have hytab := DenseVector.eq_tabulate_entry hydim
  rw [hxtab, mulVec_eq_ok_iff_corner] at hx
  rw [hytab, mulVec_eq_ok_iff_corner] at hy
  have hdiff : (f.corner n n).mulVec ((fun j : Fin n => x.entry j) - fun j : Fin n => y.entry j)
      = 0 := by
    rw [mulVec_sub, hx, hy, sub_self]
  have heq := sub_eq_zero.1 (eq_zero_of_mulVec_eq_zero hdet hdiff)
  rw [hxtab, hytab]
  exact DenseVector.tabulate_congr fun i hi => congrFun heq ⟨i, hi⟩

/-- If the determinant is zero, no product determines the vector. -/
theorem exists_ne_of_mulVec_eq (hdet : (f.corner n n).det = 0) {b : ℕ → ℚ} {y : DenseVector ℚ}
    (hy : (tabulate n n f).mulVec y = .ok (DenseVector.tabulate n b)) :
    ∃ x, x ≠ y ∧ (tabulate n n f).mulVec x = .ok (DenseVector.tabulate n b) := by
  -- a vector that is annihilated may be added
  obtain ⟨v, hv, hnull⟩ := exists_mulVec_eq_zero_iff.2 hdet
  obtain ⟨w, hw⟩ := Rational.exists_sequence v
  have hytab := DenseVector.eq_tabulate_entry (mulVec_eq_ok_iff.1 hy).1
  have hsum : (fun i : Fin n => y.entry i + w i) = (fun i : Fin n => y.entry i) + v := by
    funext i
    rw [hw, Pi.add_apply]
  refine ⟨DenseVector.tabulate n fun i => y.entry i + w i, fun hsame => hv ?_, ?_⟩
  · rw [hytab, DenseVector.tabulate_inj] at hsame
    funext i
    have hi := hsame i i.isLt
    rw [DenseVector.entry_tabulate _ i.isLt, add_eq_left] at hi
    rw [← hw, hi, Pi.zero_apply]
  · rw [hytab, mulVec_eq_ok_iff_corner] at hy
    rw [mulVec_eq_ok_iff_corner, hsum, mulVec_add, hy, hnull, add_zero]

/-! ### Cramer's rule -/

/-- The matrix with a column replaced. -/
theorem corner_update (f : Grid ℚ) (b : ℕ → ℚ) (j : Fin n) :
    Grid.corner n n (fun i => Function.update (f i) j (b i))
      = (f.corner n n).updateCol j fun i => b i := by
  ext i k
  rw [Grid.corner_apply, updateCol_apply]
  rcases eq_or_ne k j with rfl | hkj
  · rw [Function.update_self, if_pos rfl]
  · rw [Function.update_of_ne (Fin.val_ne_of_ne hkj), if_neg hkj, Grid.corner_apply]

/-- **Cramer's rule gives a solution.** -/
theorem exists_solveCramer_tabulate (hdet : (f.corner n n).det ≠ 0) (b : ℕ → ℚ) :
    ∃ x, ((tabulate n n f).solveCramer (DenseVector.tabulate n b)).outcome = .ok x ∧
      (tabulate n n f).mulVec x = .ok (DenseVector.tabulate n b) := by
  have hzero : Scalar.isZero (f.corner n n).det = false := Rational.isZero_eq_false_iff.2 hdet
  -- one entry of the solution: the determinant with a column replaced, over the determinant
  set x : ℕ → ℚ := fun i =>
    (Grid.corner n n fun a => Function.update (f a) i (b a)).det * (f.corner n n).det⁻¹ with hx
  have hentry : ∀ i ∈ List.range n, (do
      let d ← (← (tabulate n n f).replaceCol i (DenseVector.tabulate n b)).determinant
      return Scalar.mul d (Scalar.inv (f.corner n n).det) : Traced ℚ).outcome = .ok (x i) := by
    intro i hi
    rw [Traced.outcome_bind, Traced.outcome_lift, replaceCol_tabulate f (List.mem_range.1 hi),
      ok_bind, Traced.outcome_bind, determinant_tabulate, ok_bind, Traced.outcome_pure]
    rfl
  have hcramer : (fun i : Fin n => x i)
      = (f.corner n n).det⁻¹ • cramer (f.corner n n) fun i => b i := by
    funext i
    rw [hx, Pi.smul_apply, cramer_apply, ← corner_update, smul_eq_mul, mul_comm]
  refine ⟨DenseVector.tabulate n x, ?_, ?_⟩
  · rw [solveCramer, Traced.outcome_bind, determinant_tabulate, ok_bind, if_neg (by simp),
      if_neg (by rw [hzero]; exact Bool.false_ne_true), Traced.outcome_bind, Traced.outcome_lift,
      Scalar.pivotInverse_of_nonzero hzero, ok_bind, Traced.outcome_map, Traced.outcome_mapM,
      ncols_tabulate, mapM_eq_ok hentry, map_ok]
    rfl
  · rw [mulVec_eq_ok_iff_corner, hcramer, mulVec_smul, mulVec_cramer, smul_smul,
      inv_mul_cancel₀ hdet, one_smul]

/-! ### The inverse -/

/-- **The inverse gives a solution.** -/
theorem exists_solveByInverse_tabulate (hdet : (f.corner n n).det ≠ 0) (b : ℕ → ℚ) :
    ∃ x, ((tabulate n n f).solveByInverse (DenseVector.tabulate n b)).outcome = .ok x ∧
      (tabulate n n f).mulVec x = .ok (DenseVector.tabulate n b) := by
  obtain ⟨inv, hinv, hcorner⟩ := exists_inverse_tabulate hdet
  refine ⟨DenseVector.tabulate n fun i => ∑ j ∈ Finset.range n, inv i j * b j, ?_, ?_⟩
  · rw [solveByInverse, Traced.outcome_bind, hinv, ok_bind, Traced.outcome_lift, mulVec_tabulate]
  · have hproduct : (fun i : Fin n => ∑ j ∈ Finset.range n, inv i j * b j)
        = (inv.corner n n).mulVec fun j => b j := by
      funext i
      rw [Finset.sum_range]
      rfl
    rw [mulVec_eq_ok_iff_corner, hproduct, hcorner, mulVec_mulVec, mul_smul_comm, mul_adjugate,
      smul_smul, inv_mul_cancel₀ hdet, one_smul, one_mulVec]

/-! ### The solver -/

/-- **The solver returns a point exactly if the determinant is not zero**, and the point is a
solution. -/
theorem outcome_solve_eq_point_iff {b : ℕ → ℚ} {y : DenseVector ℚ} :
    ((tabulate n n f).solve (DenseVector.tabulate n b)).outcome = .ok (.point y) ↔
      (f.corner n n).det ≠ 0 ∧
        (tabulate n n f).mulVec y = .ok (DenseVector.tabulate n b) := by
  obtain ⟨s, rank, hs, hrank, hdescribes⟩ := exists_describes_solve lt_columnLimit_of_eq_zero f b
  rw [hs, Except.ok.injEq]
  constructor
  · rintro rfl
    have honly : ∀ x, (tabulate n n f).mulVec x = .ok (DenseVector.tabulate n b) ↔ x = y := by
      intro x
      rw [mulVec_eq_ok_iff_isSolution, hdescribes.iff_eq_point]
    have hy := (honly y).2 rfl
    refine ⟨fun hdet => ?_, hy⟩
    obtain ⟨x, hne, hx⟩ := exists_ne_of_mulVec_eq hdet hy
    exact hne ((honly x).1 hx)
  · rintro ⟨hdet, hy⟩
    have hfull : n ≤ rank := by
      rw [rank_tabulate, Except.ok.injEq] at hrank
      rw [← hrank]
      exact Nat.not_lt.1 (mt (Sweep.rank_lt_iff_det_eq_zero n f).1 hdet)
    have hsolution := mulVec_eq_ok_iff_isSolution.1 hy
    cases s with
    | empty => exact absurd ⟨y, hsolution⟩ (hdescribes.eq_empty_iff.1 rfl)
    | point p => rw [(hdescribes.iff_eq_point y).1 hsolution]
    | space e => exact absurd hdescribes.size_span.2 (by omega)

/-! ### What is reported -/

section Square

variable {b x : DenseVector ℚ}

/-- There is a solution if the right-hand side fits and the determinant is not zero. -/
theorem exists_solution_of_det_ne_zero (f : Grid ℚ) (b : DenseVector ℚ) :
    ∃ x, b.dim = n → (f.corner n n).det ≠ 0 → (tabulate n n f).mulVec x = .ok b := by
  by_cases hregular : b.dim = n ∧ (f.corner n n).det ≠ 0
  · obtain ⟨hdim, hdet⟩ := hregular
    obtain ⟨x, -, hx⟩ := exists_solveCramer_tabulate hdet b.entry
    rw [← DenseVector.eq_tabulate_entry hdim] at hx
    exact ⟨x, fun _ _ => hx⟩
  · exact ⟨b, fun hdim hdet => absurd ⟨hdim, hdet⟩ hregular⟩

/-- Cramer's rule compares the dimensions first. -/
theorem outcome_solveCramer_tabulate
    (hx : b.dim = n → (f.corner n n).det ≠ 0 → (tabulate n n f).mulVec x = .ok b) :
    ((tabulate n n f).solveCramer b).outcome =
      if b.dim ≠ n then .error (.columnMismatch n b.dim)
      else if (Sweep.after n f n).rank < n then .error (.shape .singular)
      else .ok x := by
  rcases ne_or_eq b.dim n with hdim | hdim
  · rw [if_pos hdim, outcome_solveCramer_of_dim_ne (determinant_tabulate f) hdim, nrows_tabulate]
  · rw [if_neg (not_not.2 hdim)]
    rcases eq_or_ne (f.corner n n).det 0 with hdet | hdet
    · rw [if_pos ((Sweep.rank_lt_iff_det_eq_zero n f).2 hdet), outcome_solveCramer_of_isZero
        (determinant_tabulate f) hdim (Rational.isZero_iff.2 hdet)]
    · have hb := DenseVector.eq_tabulate_entry hdim
      have hsolution := hx hdim hdet
      rw [hb] at hsolution
      obtain ⟨y, hy, hysolution⟩ := exists_solveCramer_tabulate hdet b.entry
      rw [if_neg (mt (Sweep.rank_lt_iff_det_eq_zero n f).1 hdet), hb, hy,
        eq_of_mulVec_eq hdet hysolution hsolution]

/-- The inverse is computed before the dimensions are compared. -/
theorem outcome_solveByInverse_tabulate
    (hx : b.dim = n → (f.corner n n).det ≠ 0 → (tabulate n n f).mulVec x = .ok b) :
    ((tabulate n n f).solveByInverse b).outcome =
      if (Sweep.after n f n).rank < n then .error (.shape .singular)
      else if b.dim ≠ n then .error (.columnMismatch n b.dim)
      else .ok x := by
  rcases eq_or_ne (f.corner n n).det 0 with hdet | hdet
  · rw [if_pos ((Sweep.rank_lt_iff_det_eq_zero n f).2 hdet), solveByInverse, Traced.outcome_bind,
      inverse_tabulate_of_det_eq_zero hdet, error_bind]
  · rw [if_neg (mt (Sweep.rank_lt_iff_det_eq_zero n f).1 hdet)]
    rcases ne_or_eq b.dim n with hdim | hdim
    · obtain ⟨inv, hinv, -⟩ := exists_inverse_tabulate hdet
      rw [if_pos hdim, solveByInverse, Traced.outcome_bind, hinv, ok_bind, Traced.outcome_lift,
        mulVec, ncols_tabulate, if_neg hdim]
    · have hb := DenseVector.eq_tabulate_entry hdim
      have hsolution := hx hdim hdet
      rw [hb] at hsolution
      obtain ⟨y, hy, hysolution⟩ := exists_solveByInverse_tabulate hdet b.entry
      rw [if_neg (not_not.2 hdim), hb, hy, eq_of_mulVec_eq hdet hysolution hsolution]

/-- The solver returns a point in no other cases, and no other point. -/
theorem outcome_solve_eq_point_iff_of_solution
    (hx : b.dim = n → (f.corner n n).det ≠ 0 → (tabulate n n f).mulVec x = .ok b)
    {y : DenseVector ℚ} :
    ((tabulate n n f).solve b).outcome = .ok (.point y) ↔
      b.dim = n ∧ (f.corner n n).det ≠ 0 ∧ y = x := by
  rcases ne_or_eq b.dim n with hdim | hdim
  · rw [outcome_solve_of_dim_ne hdim]
    exact iff_of_false nofun fun hregular => hdim hregular.1
  · have hb := DenseVector.eq_tabulate_entry hdim
    have hsolution := hx hdim
    rw [hb] at hsolution
    conv_lhs => rw [hb, outcome_solve_eq_point_iff]
    constructor
    · rintro ⟨hdet, hy⟩
      exact ⟨hdim, hdet, eq_of_mulVec_eq hdet hy (hsolution hdet)⟩
    · rintro ⟨-, hdet, rfl⟩
      exact ⟨hdet, hsolution hdet⟩

end Square

/-- **The three solvers agree, and their faults are exact.** For every matrix and every right-hand
side, Cramer's rule and the inverse refuse a matrix that is not square; after that Cramer's rule
looks for a dimension that does not fit and then for a singular matrix, and the inverse looks for
the two the other way round. Where neither finds anything both return the same vector, whose
product is the right-hand side, and these are the cases in which the solver returns a point, which
is this vector. -/
theorem solvers_agree {m : DenseMatrix ℚ} (h : m.WellFormed) (b : DenseVector ℚ) :
    ∃ rank x, m.rank.outcome = .ok rank ∧
      (m.solveCramer b).outcome =
        (if m.nrows ≠ m.ncols then .error (.shape (.notSquare m.nrows m.ncols))
        else if b.dim ≠ m.nrows then
          .error (.shape (.dimensionMismatch (m.nrows, 1) (b.dim, 1)))
        else if rank < m.nrows then .error (.shape .singular)
        else .ok x) ∧
      (m.solveByInverse b).outcome =
        (if m.nrows ≠ m.ncols then .error (.shape (.notSquare m.nrows m.ncols))
        else if rank < m.nrows then .error (.shape .singular)
        else if b.dim ≠ m.nrows then
          .error (.shape (.dimensionMismatch (m.nrows, 1) (b.dim, 1)))
        else .ok x) ∧
      (m.nrows = m.ncols → b.dim = m.nrows → ¬rank < m.nrows → m.mulVec x = .ok b) ∧
      (m.nrows = m.ncols → ∀ y, (m.solve b).outcome = .ok (.point y) ↔
        b.dim = m.nrows ∧ ¬rank < m.nrows ∧ y = x) := by
  have hrank : m.rank.outcome = .ok (Sweep.after m.nrows m.entry m.ncols).rank := by
    rw [← rank_tabulate, tabulate_entry h]
  rcases ne_or_eq m.nrows m.ncols with hne | hsquare
  · refine ⟨_, b, hrank, ?_, ?_, fun heq => absurd heq hne, fun heq => absurd heq hne⟩
    · rw [if_pos hne, solveCramer, Traced.outcome_bind, outcome_determinant_of_ne hne, error_bind]
    · rw [if_pos hne, solveByInverse, Traced.outcome_bind, outcome_inverse_of_ne hne, error_bind]
  · obtain ⟨n, f, rfl⟩ : ∃ n f, m = tabulate n n f :=
      ⟨m.nrows, m.entry, eq_tabulate_entry h rfl hsquare.symm⟩
    simp only [nrows_tabulate, ncols_tabulate, ne_eq, not_true, if_false]
    obtain ⟨x, hx⟩ := exists_solution_of_det_ne_zero f b
    refine ⟨_, x, rank_tabulate f, outcome_solveCramer_tabulate hx,
      outcome_solveByInverse_tabulate hx, fun _ hdim hfull => ?_, fun _ y => ?_⟩
    · exact hx hdim (mt (Sweep.rank_lt_iff_det_eq_zero n f).2 hfull)
    · rw [outcome_solve_eq_point_iff_of_solution hx, Sweep.rank_lt_iff_det_eq_zero]

/-- A regular system has the same solution in all three ways; a singular one with a right-hand side
that does not fit is refused for different causes. -/
theorem solvers_agree_on_regular_and_singular :
    let a : DenseMatrix ℚ := ⟨2, 2, #[2, 1, 1, 1]⟩
    let z : DenseMatrix ℚ := ⟨1, 1, #[0]⟩
    (∃ x, (a.solveCramer ⟨[3, 2]⟩).outcome = .ok x ∧
      (a.solveByInverse ⟨[3, 2]⟩).outcome = .ok x ∧
      (a.solve ⟨[3, 2]⟩).outcome = .ok (.point x)) ∧
    (z.solveCramer ⟨[]⟩).outcome = .error (.shape (.dimensionMismatch (1, 1) (0, 1))) ∧
    (z.solveByInverse ⟨[]⟩).outcome = .error (.shape .singular) := by
  intro a z
  obtain ⟨rank, x, hrank, hcramer, hinverse, -, hsolve⟩ :=
    solvers_agree (m := a) (by decide) ⟨[3, 2]⟩
  have hregular : a.rank.outcome = .ok 2 := by decide +kernel
  obtain rfl : rank = 2 := Except.ok.inj (hrank.symm.trans hregular)
  obtain ⟨rank, y, hrank, hcramer', hinverse', -⟩ := solvers_agree (m := z) (by decide) ⟨[]⟩
  have hsingular : z.rank.outcome = .ok 0 := by decide +kernel
  obtain rfl : rank = 0 := Except.ok.inj (hrank.symm.trans hsingular)
  exact ⟨⟨x, hcramer, hinverse, (hsolve rfl x).2 ⟨rfl, by decide, rfl⟩⟩, hcramer', hinverse'⟩

end DenseMatrix

end LinearSystems
