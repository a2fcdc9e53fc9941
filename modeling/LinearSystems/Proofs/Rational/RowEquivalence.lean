import LinearSystems.Proofs.Rational.Scalar
import Mathlib.LinearAlgebra.Matrix.SchurComplement
import Mathlib.LinearAlgebra.Matrix.Permutation

/-!
# Elimination of rational matrices as multiplication from the left

Over the rationals each step of an elimination multiplies the matrix from the left: by a
permutation matrix, by a matrix with ones on its diagonal and entries in a single column besides,
or by an invertible diagonal matrix. So the whole forward pass is one factor, whose determinant is
the sign of the row exchanges (`exists_factor_after`), and the reduced form is row equivalent to
the matrix (`rowEquivalent_reduced`).

The equations need the staircase: a step writes nothing to the left of its column, and this agrees
with the algebra only because the pivot row is zero there.

`corner r c f` is the matrix that a grid shows within a shape. Row equivalent matrices have the
same row space; the converse is not needed.
-/

namespace LinearSystems

open Matrix

variable {r c : ℕ}

/-- The matrix of a grid within a shape. -/
def Grid.corner (r c : ℕ) (f : Grid ℚ) : Matrix (Fin r) (Fin c) ℚ :=
  Matrix.of fun i j => f i j

@[simp]
theorem Grid.corner_apply (f : Grid ℚ) (i : Fin r) (j : Fin c) : f.corner r c i j = f i j := rfl

/-! ### Row equivalence -/

/-- One matrix arises from the other by an invertible factor on the left. -/
def RowEquivalent (M N : Matrix (Fin r) (Fin c) ℚ) : Prop :=
  ∃ P : Matrix (Fin r) (Fin r) ℚ, IsUnit P.det ∧ N = P * M

namespace RowEquivalent

variable {L M N : Matrix (Fin r) (Fin c) ℚ}

theorem refl (M : Matrix (Fin r) (Fin c) ℚ) : RowEquivalent M M :=
  ⟨1, by simp, by simp⟩

theorem trans (h : RowEquivalent L M) (h' : RowEquivalent M N) : RowEquivalent L N := by
  obtain ⟨P, hP, rfl⟩ := h
  obtain ⟨Q, hQ, rfl⟩ := h'
  exact ⟨Q * P, by rw [det_mul]; exact hQ.mul hP, (Matrix.mul_assoc Q P L).symm⟩

theorem symm (h : RowEquivalent M N) : RowEquivalent N M := by
  obtain ⟨P, hP, rfl⟩ := h
  refine ⟨P⁻¹, isUnit_nonsing_inv_det P hP, ?_⟩
  rw [← Matrix.mul_assoc, nonsing_inv_mul P hP, Matrix.one_mul]

end RowEquivalent

/-! ### Single steps -/

/-- Cancelling an entry subtracts a multiple of the source row, if that row is zero to the left. -/
theorem Grid.cancel_eq_sub {col : ℕ} {factor : ℚ} {source row : ℕ → ℚ}
    (hleft : ∀ j < col, source j = 0) (hpivot : source col ≠ 0)
    (hfactor : row col = source col * factor) (j : ℕ) :
    Grid.cancel col factor source row j = row j - source j * factor := by
  rw [Grid.cancel]
  rcases eq_or_ne (row col) 0 with hzero | hzero
  · -- the row is left alone, and the factor is zero
    have hf : factor = 0 := by
      rw [hzero] at hfactor
      exact (mul_eq_zero.1 hfactor.symm).resolve_left hpivot
    rw [if_pos (by simp [hzero]), hf, mul_zero, sub_zero]
  · rcases Nat.lt_trichotomy j col with hlt | rfl | hgt
    · simp [hlt, hleft j hlt]
    · simp [hfactor]
    · simp [hzero, Nat.not_lt.2 hgt.le, hgt.ne']

/-- Clearing a column below a pivot subtracts multiples of the pivot row. -/
theorem Grid.clearBelow_eq_sub {f : Grid ℚ} {pivot col : ℕ} (hleft : ∀ j < col, f pivot j = 0)
    (hpivot : f pivot col ≠ 0) (i j : ℕ) :
    f.clearBelow pivot col i j
      = f i j - (if pivot < i then f i col / f pivot col else 0) * f pivot j := by
  rw [Grid.clearBelow]
  split_ifs with hlt
  · rw [Grid.cancel_eq_sub hleft hpivot (by rw [Rational.div_eq, mul_div_cancel₀ _ hpivot]),
      Rational.div_eq, mul_comm]
  · rw [zero_mul, sub_zero]

/-- Clearing a column above a pivot that is one subtracts multiples of the pivot row. -/
theorem Grid.clearAbove_eq_sub {f : Grid ℚ} {pivot col : ℕ} (hleft : ∀ j < col, f pivot j = 0)
    (hpivot : f pivot col = 1) (i j : ℕ) :
    f.clearAbove pivot col i j = f i j - (if i < pivot then f i col else 0) * f pivot j := by
  rw [Grid.clearAbove]
  split_ifs with hlt
  · rw [Grid.cancel_eq_sub hleft (by rw [hpivot]; exact one_ne_zero) (by rw [hpivot, one_mul]),
      mul_comm]
  · rw [zero_mul, sub_zero]

/-- Normalizing a row multiplies it by the reciprocal of its pivot. -/
theorem Grid.normalizeRow_eq_mul {f : Grid ℚ} {i col : ℕ} (hleft : ∀ j < col, f i j = 0)
    (hpivot : f i col ≠ 0) (j : ℕ) : f.normalizeRow i col i j = (f i col)⁻¹ * f i j := by
  rw [Grid.normalizeRow]
  split_ifs with hone
  · rw [Rational.isOne_iff.1 hone, inv_one, one_mul]
  · rw [Function.update_self]
    rcases Nat.lt_trichotomy j col with hlt | rfl | hgt
    · rw [if_pos hlt, hleft j hlt, mul_zero]
    · rw [if_neg (lt_irrefl _), if_pos rfl, Rational.one_eq, inv_mul_cancel₀ hpivot]
    · rw [if_neg hgt.le.not_gt, if_neg hgt.ne', Rational.mul_eq, Rational.inv_eq, mul_comm]

/-- Multiples of one row are added to the other rows: a factor of determinant one. -/
theorem exists_factor_of_add_multiples {M N : Matrix (Fin r) (Fin c) ℚ} (source : Fin r)
    {u : Fin r → ℚ} (hu : u source = 0) (h : ∀ i j, N i j = M i j + u i * M source j) :
    ∃ P : Matrix (Fin r) (Fin r) ℚ, P.det = 1 ∧ N = P * M := by
  refine ⟨1 + replicateCol Unit u * replicateRow Unit (Pi.single source (1 : ℚ)), ?_, ?_⟩
  · rw [det_one_add_replicateCol_mul_replicateRow, single_one_dotProduct, hu, add_zero]
  · ext i j
    rw [h, Matrix.add_mul, Matrix.one_mul, Matrix.add_apply, Matrix.mul_assoc, Matrix.mul_apply]
    simp [Matrix.mul_apply, Pi.single_apply]

/-- A permutation of the rows: a factor whose determinant is the sign. -/
theorem exists_factor_of_perm {M N : Matrix (Fin r) (Fin c) ℚ} (σ : Equiv.Perm (Fin r))
    (h : ∀ i j, N i j = M (σ i) j) :
    ∃ P : Matrix (Fin r) (Fin r) ℚ, P.det = (Equiv.Perm.sign σ : ℤ) ∧ N = P * M := by
  refine ⟨σ.permMatrix ℚ, det_permutation σ, ?_⟩
  ext i j
  rw [h, Equiv.Perm.permMatrix, PEquiv.toMatrix_toPEquiv_mul, submatrix_apply, id]

/-- One row is multiplied by a scalar: a factor whose determinant is the scalar. -/
theorem exists_factor_of_scale {M N : Matrix (Fin r) (Fin c) ℚ} (row : Fin r) {x : ℚ}
    (hrow : ∀ j, N row j = x * M row j) (hother : ∀ i ≠ row, ∀ j, N i j = M i j) :
    ∃ P : Matrix (Fin r) (Fin r) ℚ, P.det = x ∧ N = P * M := by
  refine ⟨diagonal (Function.update 1 row x), ?_, ?_⟩
  · rw [det_diagonal, Finset.prod_update_of_mem (Finset.mem_univ row)]
    simp
  · ext i j
    rw [diagonal_mul]
    rcases eq_or_ne i row with rfl | hi
    · rw [Function.update_self, hrow]
    · rw [Function.update_of_ne hi, hother i hi, Pi.one_apply, one_mul]

/-! ### The forward pass -/

namespace Sweep

variable {s : Sweep ℚ} {n : ℕ} {pivot : ℕ → ℕ}

/-- The exchange of rows has the sign of the swap that is recorded. -/
theorem exists_factor_bringUp (c n : ℕ) {k : ℕ} (hrank : s.rank < r) (hk : k < r) :
    ∃ P : Matrix (Fin r) (Fin r) ℚ,
      P.det * (-1) ^ s.swaps.length = (-1) ^ (s.bringUp n k).swaps.length ∧
        (s.bringUp n k).grid.corner r c = P * s.grid.corner r c := by
  rcases eq_or_ne k s.rank with rfl | hkr
  · exact ⟨1, by simp [bringUp], by simp [bringUp]⟩
  · set σ : Equiv.Perm (Fin r) := Equiv.swap ⟨s.rank, hrank⟩ ⟨k, hk⟩ with hσ
    have hne : (⟨s.rank, hrank⟩ : Fin r) ≠ ⟨k, hk⟩ := fun h => hkr (Fin.mk.inj h).symm
    have hval : ∀ i : Fin r, ((σ i : Fin r) : ℕ) = Equiv.swap s.rank k i := fun i =>
      Fin.val_injective.map_swap _ _ i
    -- the exchange as a transposition of the rows of the corner
    obtain ⟨P, hdet, hP⟩ := exists_factor_of_perm (M := s.grid.corner r c)
      (N := (s.bringUp n k).grid.corner r c) σ fun i j => by
        simp only [Grid.corner_apply, bringUp, hval]
    refine ⟨P, ?_, hP⟩
    rw [hdet, hσ, Equiv.Perm.sign_swap hne]
    simp [bringUp, hkr, pow_succ]

/-- A column is cleared by a factor of determinant one. -/
theorem exists_factor_clearBelow (c : ℕ) {f : Grid ℚ} {pivotRow col : ℕ} (hrow : pivotRow < r)
    (hleft : ∀ j < col, f pivotRow j = 0) (hpivot : f pivotRow col ≠ 0) :
    ∃ P : Matrix (Fin r) (Fin r) ℚ,
      P.det = 1 ∧ (f.clearBelow pivotRow col).corner r c = P * f.corner r c := by
  refine exists_factor_of_add_multiples ⟨pivotRow, hrow⟩
    (u := fun i => -if pivotRow < i then f i col / f pivotRow col else 0) (by simp) fun i j => ?_
  rw [Grid.corner_apply, Grid.clearBelow_eq_sub hleft hpivot, sub_eq_add_neg, ← neg_mul]
  rfl

/-- **The forward pass multiplies from the left**, by a factor whose determinant is the sign of the
recorded exchanges. The width of the corner is arbitrary. -/
theorem exists_factor_after (r c : ℕ) (f : Grid ℚ) (n : ℕ) :
    ∃ P : Matrix (Fin r) (Fin r) ℚ, P.det = (-1) ^ (after r f n).swaps.length ∧
      (after r f n).grid.corner r c = P * f.corner r c := by
  induction n with
  | zero => exact ⟨1, by simp, by simp⟩
  | succ n ih =>
    obtain ⟨P, hdet, hP⟩ := ih
    obtain ⟨pivot, hstair⟩ := exists_staircase r f n
    rw [after_succ]
    set s := after r f n
    cases hpivot : s.pivotRow? r n with
    | none =>
      rw [step_of_none hpivot]
      exact ⟨P, hdet, hP⟩
    | some k =>
      obtain ⟨hle, hk, hnonzero⟩ := pivotRow?_eq_some hpivot
      have hrank : s.rank < r := hle.trans_lt hk
      -- the new pivot row is zero to the left of the column, because no row behind the
      -- staircase so far is anything else
      have hup := hstair.bringUp hle hk
      have hleft : ∀ j < n, (s.bringUp n k).grid s.rank j = 0 := fun j hj =>
        Rational.isZero_iff.1 (hup.zero_below s.rank le_rfl hrank j hj)
      have hpiv : (s.bringUp n k).grid s.rank n ≠ 0 := by
        simpa [bringUp] using hnonzero
      obtain ⟨Q, hQdet, hQ⟩ := exists_factor_bringUp c n (s := s) hrank hk
      obtain ⟨R, hRdet, hR⟩ := exists_factor_clearBelow c hrank hleft hpiv
      rw [step_of_some hpivot]
      refine ⟨R * Q * P, ?_, ?_⟩
      · rw [det_mul, det_mul, hRdet, one_mul, hdet, hQdet]
      · rw [hR, hQ, hP, Matrix.mul_assoc, Matrix.mul_assoc]

end Sweep

/-! ### Back-substitution -/

namespace Staircase

variable {f : Grid ℚ} {rank width : ℕ} {pivot : ℕ → ℕ}

/-- To the left of its pivot, a row is zero. -/
theorem eq_zero_left (h : Staircase f r width rank pivot) {i : ℕ} (hi : i < rank) :
    ∀ j < pivot i, f i j = 0 :=
  fun j hj => Rational.isZero_iff.1 (h.zero_left i hi j hj)

theorem pivot_ne_zero (h : Staircase f r width rank pivot) {i : ℕ} (hi : i < rank) :
    f i (pivot i) ≠ 0 :=
  Rational.isZero_eq_false_iff.1 (h.nonzero i hi)

/-- Over the rationals, normalizing a row makes its pivot one. -/
theorem normalizeRow_pivot_eq_one (h : Staircase f r width rank pivot) {i : ℕ} (hi : i < rank) :
    f.normalizeRow i (pivot i) i (pivot i) = 1 := by
  rw [Grid.normalizeRow_eq_mul (h.eq_zero_left hi) (h.pivot_ne_zero hi),
    inv_mul_cancel₀ (h.pivot_ne_zero hi)]

theorem rowEquivalent_normalizeRow (h : Staircase f r width rank pivot) (c : ℕ) {i : ℕ}
    (hi : i < rank) :
    RowEquivalent (f.corner r c) ((f.normalizeRow i (pivot i)).corner r c) := by
  obtain ⟨P, hdet, hP⟩ := exists_factor_of_scale (M := f.corner r c)
    (N := (f.normalizeRow i (pivot i)).corner r c) ⟨i, hi.trans_le h.rank_le⟩
    (fun j => Grid.normalizeRow_eq_mul (h.eq_zero_left hi) (h.pivot_ne_zero hi) j)
    (fun k hk j => by
      have hki : (k : ℕ) ≠ i := fun heq => hk (Fin.ext heq)
      simp only [Grid.corner_apply, Grid.normalizeRow_of_ne hki])
  exact ⟨P, by rw [hdet]; exact isUnit_iff_ne_zero.2 (inv_ne_zero (h.pivot_ne_zero hi)), hP⟩

theorem rowEquivalent_clearAbove (h : Staircase f r width rank pivot) (c : ℕ) {i : ℕ}
    (hi : i < rank) (hone : f i (pivot i) = 1) :
    RowEquivalent (f.corner r c) ((f.clearAbove i (pivot i)).corner r c) := by
  obtain ⟨P, hdet, hP⟩ := exists_factor_of_add_multiples (M := f.corner r c)
    (N := (f.clearAbove i (pivot i)).corner r c) ⟨i, hi.trans_le h.rank_le⟩
    (u := fun k => -if (k : ℕ) < i then f k (pivot i) else 0) (by simp)
    (fun k j => by
      rw [Grid.corner_apply, Grid.clearAbove_eq_sub (h.eq_zero_left hi) hone, sub_eq_add_neg,
        ← neg_mul]
      rfl)
  exact ⟨P, by rw [hdet]; exact isUnit_one, hP⟩

theorem rowEquivalent_reduceRow (h : Staircase f r width rank pivot) (c : ℕ) {i : ℕ} (hr : i < r) :
    RowEquivalent (f.corner r c) ((f.reduceRow width i).corner r c) := by
  rcases Nat.lt_or_ge i rank with hi | hi
  · rw [h.reduceRow_of_lt hi]
    exact (h.rowEquivalent_normalizeRow c hi).trans
      ((h.normalizeRow hi).rowEquivalent_clearAbove c hi (h.normalizeRow_pivot_eq_one hi))
  · rw [h.reduceRow_of_le hi hr]
    exact RowEquivalent.refl _

theorem rowEquivalent_reduceRows (h : Staircase f r width rank pivot) (c : ℕ) {count : ℕ}
    (hcount : count ≤ r) :
    RowEquivalent (f.corner r c) ((f.reduceRows width count).corner r c) := by
  induction count generalizing f with
  | zero => exact RowEquivalent.refl _
  | succ count ih =>
    exact (h.rowEquivalent_reduceRow c hcount).trans
      (ih (h.reduceRow hcount) (Nat.le_of_succ_le hcount))

end Staircase

/-- The forward pass leads to a row equivalent matrix. -/
theorem rowEquivalent_after (r c : ℕ) (f : Grid ℚ) (n : ℕ) :
    RowEquivalent (f.corner r c) ((Sweep.after r f n).grid.corner r c) := by
  obtain ⟨P, hdet, hP⟩ := Sweep.exists_factor_after r c f n
  refine ⟨P, ?_, hP⟩
  rw [hdet]
  exact (isUnit_one.neg).pow _

/-- **The reduced form is row equivalent to the matrix.** -/
theorem rowEquivalent_reduced (r c : ℕ) (f : Grid ℚ) :
    RowEquivalent (f.corner r c) ((f.reduced r c).corner r c) := by
  obtain ⟨pivot, hstair⟩ := Sweep.exists_staircase r f c
  exact (rowEquivalent_after r c f c).trans (hstair.rowEquivalent_reduceRows c le_rfl)

end LinearSystems
