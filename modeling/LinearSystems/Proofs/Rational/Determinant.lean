import LinearSystems.Proofs.DenseMatrix.Determinants
import LinearSystems.Proofs.Rational.Products
import Mathlib.LinearAlgebra.Matrix.Block
import Mathlib.Tactic.NormNum

/-!
# Determinants of rational matrices

Both ways to compute a determinant give the determinant.

* The forward pass multiplies by a factor whose determinant is the sign of the exchanges of rows
  (`Sweep.exists_factor_after`), and a square staircase is upper triangular: a missing pivot shows
  as a zero on the diagonal.
* The expansion along the first row is Laplace's, because a minor reads the grid along
  `Grid.skip`. Zero entries may be skipped, and the determinants of sizes one and two that end the
  recursion are written out.
-/

namespace LinearSystems

open Matrix

variable {n : ℕ}

/-! ### From the row echelon form -/

/-- A square staircase has nothing below its diagonal. -/
theorem Staircase.isUpperTriangular {f : Grid ℚ} {rank : ℕ} {pivot : ℕ → ℕ}
    (h : Staircase f n n rank pivot) : (f.corner n n).IsUpperTriangular := by
  intro i j hij
  have hlt : (j : ℕ) < i := hij
  rw [Grid.corner_apply]
  -- the pivots stand on the diagonal or to the right of it
  rcases Nat.lt_or_ge i rank with hi | hi
  · exact h.eq_zero_left hi j (hlt.trans_le (h.le_pivot hi))
  · exact Rational.isZero_iff.1 (h.zero_below i hi i.isLt j j.isLt)

/-- The determinant, up to the sign of the exchanges, is the product of the diagonal. -/
theorem Sweep.prod_diagonal_after (n : ℕ) (f : Grid ℚ) :
    ∏ i ∈ Finset.range n, (after n f n).grid i i
      = (-1) ^ (after n f n).swaps.length * (f.corner n n).det := by
  obtain ⟨pivot, hstair⟩ := exists_staircase n f n
  obtain ⟨P, hdet, hP⟩ := exists_factor_after n n f n
  rw [← hdet, ← det_mul, ← hP, det_of_isUpperTriangular hstair.isUpperTriangular,
    Finset.prod_range]
  rfl

namespace DenseMatrix

theorem diagonalProduct_tabulate (f : Grid ℚ) :
    (tabulate n n f).diagonalProduct = .ok (∏ i ∈ Finset.range n, f i i) := by
  rw [diagonalProduct_eq_foldl]
  refine congrArg Except.ok ?_
  induction n with
  | zero => rfl
  | succ n ih =>
    rw [List.range_succ, List.foldl_append, ih, Finset.prod_range_succ]
    rfl

/-- **The determinant that is read off the row echelon form is the determinant.** -/
theorem determinant_tabulate (f : Grid ℚ) :
    (tabulate n n f).determinant.outcome = .ok (f.corner n n).det := by
  set s := Sweep.after n f n with hs
  -- the sign of the exchanges, once from the diagonal and once from the parity of their number
  have hproduct : (List.range n).foldl (fun product x => Scalar.mul product (s.grid x x)) Scalar.one
      = (-1) ^ s.swaps.length * (f.corner n n).det := by
    rw [← Sweep.prod_diagonal_after, ← hs, ← Except.ok.injEq, ← diagonalProduct_eq_foldl,
      diagonalProduct_tabulate]
  have hsign : (if (s.toElimination n n).isOdd then
      Scalar.neg ((-1) ^ s.swaps.length * (f.corner n n).det)
      else (-1) ^ s.swaps.length * (f.corner n n).det) = (f.corner n n).det := by
    rcases Nat.even_or_odd s.swaps.length with heven | hodd
    · rw [if_neg (by simp [Elimination.isOdd, Sweep.toElimination, Nat.even_iff.1 heven]),
        heven.neg_one_pow, one_mul]
    · rw [if_pos (by simp [Elimination.isOdd, Sweep.toElimination, Nat.odd_iff.1 hodd]),
        hodd.neg_one_pow, Rational.neg_eq, neg_mul, one_mul, neg_neg]
  rw [outcome_determinant_tabulate, ← hs, hproduct, hsign]

/-! ### By cofactors -/

/-- One summand of the expansion. A zero entry is skipped, which makes no difference. -/
theorem expand_step {m : DenseMatrix ℚ} {size j : ℕ} {e d : ℚ} (he : m.get 0 j = .ok e)
    (hd : (m.minor 0 j >>= expand size) = .ok d) (det : ℚ) :
    (do
      let e ← m.get 0 j
      if Scalar.isZero e then return det
      else
        let d ← expand size (← m.minor 0 j)
        return if j % 2 = 0 then Scalar.addMul det e d else Scalar.subMul det e d)
      = (.ok (det + (-1) ^ j * e * d) : Except Fault ℚ) := by
  rw [he, ok_bind]
  split_ifs with hzero heven
  · rw [Rational.isZero_iff.1 hzero, mul_zero, zero_mul, add_zero, pure_eq_ok]
  · rw [← bind_assoc, hd, ok_bind, pure_eq_ok, (Nat.even_iff.2 heven).neg_one_pow, one_mul,
      Rational.addMul_eq]
  · rw [← bind_assoc, hd, ok_bind, pure_eq_ok, (Nat.odd_iff.2 (by omega)).neg_one_pow,
      Rational.subMul_eq, neg_one_mul, neg_mul, sub_eq_add_neg]

/-- The numbers other than one of them are counted alike with and without a bound. -/
theorem skip_eq_succAbove (k : Fin (n + 1)) (i : Fin n) : Grid.skip k i = (k.succAbove i : ℕ) := by
  rcases Nat.lt_or_ge i k with hlt | hge
  · rw [Grid.skip, if_pos hlt, Fin.succAbove_of_castSucc_lt _ _ hlt, Fin.val_castSucc]
  · rw [Grid.skip, if_neg (Nat.not_lt.2 hge), Fin.succAbove_of_le_castSucc _ _ hge, Fin.val_succ]

/-- The minor of a grid is the minor of its matrix. -/
theorem corner_skip (f : Grid ℚ) (i j : Fin (n + 1)) :
    Grid.corner n n (fun a b => f (Grid.skip i a) (Grid.skip j b))
      = (f.corner (n + 1) (n + 1)).submatrix i.succAbove j.succAbove := by
  ext a b
  rw [submatrix_apply, Grid.corner_apply, Grid.corner_apply, skip_eq_succAbove, skip_eq_succAbove]

/-- **The expansion along the first row is the determinant.** -/
theorem expand_tabulate (n : ℕ) (f : Grid ℚ) :
    expand n (tabulate n n f) = .ok (f.corner n n).det := by
  induction n using Nat.strong_induction_on generalizing f with
  | _ n ih =>
    match n with
    | 0 => rw [expand, det_isEmpty, Rational.one_eq]
    | 1 => rw [expand, get_tabulate f Nat.one_pos Nat.one_pos, det_fin_one]; rfl
    | 2 =>
      rw [expand, get_tabulate f (by decide) (by decide), ok_bind,
        get_tabulate f (by decide) (by decide), ok_bind, get_tabulate f (by decide) (by decide),
        ok_bind, get_tabulate f (by decide) (by decide), ok_bind, pure_eq_ok, det_fin_two]
      rfl
    | size + 3 =>
      -- the minors have size at least two, so the recursion is on all smaller sizes
      have hstep := fun det j (hj : j ∈ List.range (size + 3)) =>
        expand_step (get_tabulate f (Nat.succ_pos (size + 2)) (List.mem_range.1 hj)) (by
          rw [minor_tabulate f (Nat.succ_pos (size + 2)) (List.mem_range.1 hj), ok_bind]
          exact ih (size + 2) (Nat.lt_succ_self _) _) det
      rw [expand, ncols_tabulate, foldlM_eq_ok hstep, Rational.zero_eq, Rational.foldl_add,
        det_succ_row_zero, Finset.sum_range]
      refine congrArg Except.ok (Finset.sum_congr rfl fun j _ => ?_)
      have hminor := corner_skip f 0 j
      rw [Fin.val_zero, Fin.succAbove_zero] at hminor
      rw [hminor]
      rfl

/-! ### Leibniz' sum -/

/-- The determinant of a grid as a sum over permutations, row by row. -/
theorem det_corner_eq_sum (f : Grid ℚ) :
    (f.corner n n).det
      = ∑ σ : Equiv.Perm (Fin n), (Equiv.Perm.sign σ : ℚ) * ∏ i : Fin n, f i (σ i) := by
  rw [← det_transpose, det_apply']
  rfl

/-- **Both determinants are Leibniz' sum over all permutations** of the columns, for every square
matrix down to the one without entries, and both refuse a matrix that is not square, naming its
dimensions. -/
theorem determinant_eq_leibniz {m : DenseMatrix ℚ} (h : m.WellFormed) :
    (∀ n, m.shape = (n, n) →
      m.determinant.outcome = .ok (∑ σ : Equiv.Perm (Fin n),
        (Equiv.Perm.sign σ : ℚ) * ∏ i : Fin n, m.entry i (σ i)) ∧
      m.determinantByCofactors = .ok (∑ σ : Equiv.Perm (Fin n),
        (Equiv.Perm.sign σ : ℚ) * ∏ i : Fin n, m.entry i (σ i))) ∧
    (m.nrows ≠ m.ncols →
      m.determinant.outcome = .error (.shape (.notSquare m.nrows m.ncols)) ∧
      m.determinantByCofactors = .error (.shape (.notSquare m.nrows m.ncols))) := by
  constructor
  · intro n hshape
    obtain ⟨hrows, hcols⟩ := Prod.mk.inj hshape
    have htab : m = tabulate n n m.entry := by
      conv_lhs => rw [← tabulate_entry h, hrows, hcols]
    have hsquare : m.isSquare = true := by rw [isSquare, hrows, hcols, beq_self_eq_true]
    have hcofactors : expand n m = .ok (m.entry.corner n n).det := by
      conv_lhs => rw [htab, expand_tabulate]
    rw [← det_corner_eq_sum]
    constructor
    · conv_lhs => rw [htab, determinant_tabulate]
    · rw [determinantByCofactors, if_pos hsquare, hrows, hcofactors]
  · intro hne
    have hsquare : ¬ m.isSquare = true := by rw [isSquare, beq_iff_eq]; exact hne
    constructor
    · rw [determinant, if_neg hsquare, Traced.outcome_fail, notSquare]
    · rw [determinantByCofactors, if_neg hsquare, notSquare]

/-- The determinant of a matrix whose elimination exchanges rows. -/
theorem determinant_of_exchanged_rows :
    let a : DenseMatrix ℚ := ⟨2, 2, #[0, 2, 3, 5]⟩
    a.determinant.outcome = .ok (-6) ∧ a.determinantByCofactors = .ok (-6) ∧
      (⟨1, 2, #[1, 2]⟩ : DenseMatrix ℚ).determinant.outcome = .error (.shape (.notSquare 1 2)) := by
  intro a
  have hwide := (determinant_eq_leibniz (m := ⟨1, 2, #[1, 2]⟩) (by decide)).2 (by decide)
  obtain ⟨hech, hcof⟩ := (determinant_eq_leibniz (m := a) (by decide)).1 2 rfl
  rw [hech, hcof, ← det_corner_eq_sum, det_fin_two]
  refine ⟨?_, ?_, hwide.1⟩ <;> norm_num [a, entry, linearPosition]

end DenseMatrix

end LinearSystems
