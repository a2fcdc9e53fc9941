import LinearSystems.Proofs.Rational.Rank

/-!
# Parallel vectors

Two rational vectors are tested by the minors of the pair: whether `x i * y j = x j * y i` for all
positions `i < j`. The test stops at the first minor that does not vanish. What it decides can be
said in three other ways (`minorsVanish_tfae`):

* one of the vectors is a multiple of the other. The factor is the quotient of the entries at a
  position where one of them is not zero, and if there is none, then it is the zero vector;
* the square of the scalar product is the product of the squares of the lengths. By Lagrange's
  identity (`sum_sq_mul_sum_sq_sub`) the difference of the two is half the sum of the squares of
  all minors, which is never negative, and zero only if each minor is;
* the matrix with the two vectors as its rows has rank at most one.

In each of them the zero vector is parallel to every vector, and so are vectors without entries or
with a single one.
-/

namespace LinearSystems

open Matrix

variable {n : ℕ} {x y : ℕ → ℚ}

namespace DenseVector

/-! ### Minors -/

/-- The loop over the pairs of columns visits each of them once. -/
theorem minorsVanish_iff_pairwise {K : Type} [Scalar K] {columns : List (K × K)} :
    minorsVanish columns = true ↔
      columns.Pairwise fun p q => Scalar.isZero (minor p q) = true := by
  induction columns with
  | nil => simp [minorsVanish]
  | cons p rest ih =>
    rw [minorsVanish, Bool.and_eq_true, List.all_eq_true, ih, List.pairwise_cons]

/-- The order of the two columns does not matter, so every two columns may be taken. -/
theorem minorsVanish_tabulate :
    minorsVanish ((tabulate n x).entries.zip (tabulate n y).entries) = true ↔
      ∀ i < n, ∀ j < n, x i * y j = x j * y i := by
  have hzero (p q : ℚ × ℚ) : Scalar.isZero (minor p q) = true ↔ p.1 * q.2 = q.1 * p.2 := by
    rw [minor, Rational.isZero_iff, Rational.sub_eq, Rational.mul_eq, Rational.mul_eq, sub_eq_zero]
  rw [minorsVanish_iff_pairwise, tabulate, tabulate, List.zip_map', List.pairwise_map,
    List.pairwise_iff_getElem]
  simp only [hzero, List.length_range, List.getElem_range]
  constructor
  · intro h i hi j hj
    rcases Nat.lt_trichotomy i j with hij | rfl | hij
    · exact h i j hi hj hij
    · rfl
    · exact (h j i hj hi hij).symm
  · intro h i j hi hj _
    exact h i hi j hj

end DenseVector

/-! ### What the minors say -/

/-- The minors vanish exactly if one sequence is a multiple of the other. -/
theorem minors_eq_iff_multiple :
    (∀ i < n, ∀ j < n, x i * y j = x j * y i) ↔
      ∃ t, (∀ i < n, y i = x i * t) ∨ ∀ i < n, x i = y i * t := by
  constructor
  · intro h
    by_cases hx : ∀ i < n, x i = 0
    · exact ⟨0, Or.inr fun i hi => by rw [hx i hi, mul_zero]⟩
    · push Not at hx
      obtain ⟨i, hi, hne⟩ := hx
      refine ⟨y i / x i, Or.inl fun j hj => ?_⟩
      rw [mul_div_assoc', ← h i hi j hj, mul_div_cancel_left₀ _ hne]
  · rintro ⟨t, h | h⟩ i hi j hj
    · rw [h i hi, h j hj]
      ring
    · rw [h i hi, h j hj]
      ring

/-- **Lagrange's identity.** -/
theorem sum_sq_mul_sum_sq_sub (x y : ℕ → ℚ) (n : ℕ) :
    2 * ((∑ i ∈ Finset.range n, x i * x i) * (∑ i ∈ Finset.range n, y i * y i)
        - (∑ i ∈ Finset.range n, x i * y i) ^ 2)
      = ∑ i ∈ Finset.range n, ∑ j ∈ Finset.range n, (x i * y j - x j * y i) ^ 2 := by
  have hexpand (i j : ℕ) : (x i * y j - x j * y i) ^ 2 =
      x i * x i * (y j * y j) + y i * y i * (x j * x j) - 2 * (x i * y i * (x j * y j)) := by
    ring
  simp only [hexpand, Finset.sum_add_distrib, Finset.sum_sub_distrib, ← Finset.mul_sum,
    ← Finset.sum_mul]
  ring

/-- The product of the lengths is not exceeded, and it is reached exactly if the minors vanish. -/
theorem sq_sum_mul_le_and_eq_iff (x y : ℕ → ℚ) (n : ℕ) :
    (∑ i ∈ Finset.range n, x i * y i) ^ 2
        ≤ (∑ i ∈ Finset.range n, x i * x i) * (∑ i ∈ Finset.range n, y i * y i) ∧
      ((∑ i ∈ Finset.range n, x i * y i) ^ 2
          = (∑ i ∈ Finset.range n, x i * x i) * (∑ i ∈ Finset.range n, y i * y i) ↔
        ∀ i < n, ∀ j < n, x i * y j = x j * y i) := by
  have hlagrange := sum_sq_mul_sum_sq_sub x y n
  have hrow (i : ℕ) : 0 ≤ ∑ j ∈ Finset.range n, (x i * y j - x j * y i) ^ 2 :=
    Finset.sum_nonneg fun j _ => sq_nonneg _
  have hnonneg : 0 ≤ ∑ i ∈ Finset.range n, ∑ j ∈ Finset.range n, (x i * y j - x j * y i) ^ 2 :=
    Finset.sum_nonneg fun i _ => hrow i
  have hzero : ∑ i ∈ Finset.range n, ∑ j ∈ Finset.range n, (x i * y j - x j * y i) ^ 2 = 0 ↔
      ∀ i < n, ∀ j < n, x i * y j = x j * y i := by
    rw [Finset.sum_eq_zero_iff_of_nonneg fun i _ => hrow i]
    simp only [Finset.sum_eq_zero_iff_of_nonneg fun _ _ => sq_nonneg _, Finset.mem_range,
      sq_eq_zero_iff, sub_eq_zero]
  refine ⟨by linarith, ?_⟩
  rw [← hzero, ← hlagrange]
  constructor
  · intro h
    rw [h, sub_self, mul_zero]
  · intro h
    linarith

/-- Two rows have rank at most one exactly if one is a multiple of the other. -/
theorem Grid.rank_corner_two_le_iff (f : Grid ℚ) :
    (f.corner 2 n).rank ≤ 1 ↔
      ∃ t, (∀ i < n, f 1 i = f 0 i * t) ∨ ∀ i < n, f 0 i = f 1 i * t := by
  have hheight : (f.corner 2 n).rank ≤ 2 := rank_le_height _
  have hdependent : (f.corner 2 n).rank ≤ 1 ↔ ¬LinearIndependent ℚ (f.corner 2 n).row := by
    rw [linearIndependent_row_iff]
    omega
  rw [hdependent, linearIndependent_fin2, not_and_or, not_forall_not, not_not]
  -- the lower row is zero, or the upper one is a multiple of it
  have hzero : (f.corner 2 n).row 1 = 0 ↔ ∀ i < n, f 1 i = 0 := by
    simp [funext_iff, Fin.forall_iff]
  have hmultiple (t : ℚ) :
      t • (f.corner 2 n).row 1 = (f.corner 2 n).row 0 ↔ ∀ i < n, f 0 i = f 1 i * t := by
    simp [funext_iff, Fin.forall_iff, mul_comm t, eq_comm]
  simp only [hzero, hmultiple]
  constructor
  · rintro (h | ⟨t, h⟩)
    · exact ⟨0, Or.inl fun i hi => by rw [h i hi, mul_zero]⟩
    · exact ⟨t, Or.inr h⟩
  · rintro ⟨t, h | h⟩
    · rcases eq_or_ne t 0 with rfl | ht
      · exact Or.inl fun i hi => by rw [h i hi, mul_zero]
      · exact Or.inr ⟨t⁻¹, fun i hi => by rw [h i hi, mul_inv_cancel_right₀ ht]⟩
    · exact Or.inr ⟨t, h⟩

/-! ### The test -/

namespace DenseVector

theorem eq_scale_tabulate_iff {t : ℚ} :
    tabulate n y = (tabulate n x).scale t ↔ ∀ i < n, y i = x i * t := by
  rw [scale_tabulate]
  exact tabulate_inj

theorem sumOfProducts_tabulate (x y : ℕ → ℚ) (n : ℕ) :
    sumOfProducts (tabulate n x).entries (tabulate n y).entries
      = ∑ i ∈ Finset.range n, x i * y i :=
  sumOfProducts_eq_sum x y n

/-- The two vectors as a grid of two rows. -/
theorem ofRows_pair (x y : ℕ → ℚ) :
    DenseMatrix.ofRows [tabulate n x, tabulate n y]
      = .ok (DenseMatrix.tabulate 2 n fun i => if i = 0 then x else y) :=
  DenseMatrix.ofRows_tabulate Nat.two_pos fun i => if i = 0 then x else y

/-- **The test for parallel vectors.** For vectors of one dimension, be it zero, there are an
answer, a scalar product and a rank of the matrix with the two as its rows. The answer is yes
exactly if one of the vectors is a multiple of the other, exactly if the square of the scalar
product is the product of the squares of the lengths, which it never exceeds, and exactly if the
rank is at most one. Vectors of different dimensions are refused. -/
theorem isParallel_tfae (a b : DenseVector ℚ) :
    (a.dim = b.dim →
      ∃ (parallel : Bool) (product : ℚ) (rows : DenseMatrix ℚ) (rank : ℕ),
        a.isParallel b = .ok parallel ∧ a.dot b = .ok product ∧
        DenseMatrix.ofRows [a, b] = .ok rows ∧ rows.rank.outcome = .ok rank ∧
        [parallel = true,
          ∃ t, b = a.scale t ∨ a = b.scale t,
          product ^ 2 = a.normSquared * b.normSquared,
          rank ≤ 1].TFAE ∧
        product ^ 2 ≤ a.normSquared * b.normSquared) ∧
    (a.dim ≠ b.dim →
      a.isParallel b = .error (.shape (.dimensionMismatch (a.dim, 1) (b.dim, 1)))) := by
  refine ⟨fun hdim => ?_, fun hdim => if_neg hdim⟩
  obtain ⟨x, hx⟩ : ∃ x, a = tabulate b.dim x := ⟨a.entry, eq_tabulate_entry hdim⟩
  obtain ⟨y, hy⟩ : ∃ y, b = tabulate b.dim y := ⟨b.entry, eq_tabulate_entry rfl⟩
  generalize b.dim = n at hx hy
  subst hx hy
  obtain ⟨hle, heq⟩ := sq_sum_mul_le_and_eq_iff x y n
  refine ⟨_, _, _, _, if_pos hdim, if_pos hdim, ofRows_pair x y,
    DenseMatrix.outcome_rank_tabulate _, ?_, ?_⟩
  · tfae_have 1 ↔ 2 := by
      rw [minorsVanish_tabulate, minors_eq_iff_multiple]
      simp only [eq_scale_tabulate_iff]
    tfae_have 1 ↔ 3 := by
      rw [minorsVanish_tabulate, normSquared, normSquared, sumOfProducts_tabulate,
        sumOfProducts_tabulate, sumOfProducts_tabulate, heq]
    tfae_have 1 ↔ 4 := by
      rw [minorsVanish_tabulate, Grid.rank_corner_two_le_iff, minors_eq_iff_multiple]
      rfl
    tfae_finish
  · rw [normSquared, normSquared, sumOfProducts_tabulate, sumOfProducts_tabulate,
      sumOfProducts_tabulate]
    exact hle

/-- Two vectors that begin with a zero, of which one is the half of the other, and two without a
common dimension. -/
theorem isParallel_of_half :
    (∃ product rows rank, dot (⟨[0, 2, -4]⟩ : DenseVector ℚ) ⟨[0, 1, -2]⟩ = .ok product ∧
        DenseMatrix.ofRows [(⟨[0, 2, -4]⟩ : DenseVector ℚ), ⟨[0, 1, -2]⟩] = .ok rows ∧
        rows.rank.outcome = .ok rank ∧ product ^ 2 = 20 * 5 ∧ rank ≤ 1) ∧
      isParallel (⟨[0, 2]⟩ : DenseVector ℚ) ⟨[0]⟩
        = .error (.shape (.dimensionMismatch (2, 1) (1, 1))) := by
  obtain ⟨parallel, product, rows, rank, hparallel, hproduct, hrows, hrank, htfae, -⟩ :=
    (isParallel_tfae ⟨[0, 2, -4]⟩ ⟨[0, 1, -2]⟩).1 rfl
  obtain rfl : parallel = true := Except.ok.inj (hparallel.symm.trans (by decide +kernel))
  have hlengths : (⟨[0, 2, -4]⟩ : DenseVector ℚ).normSquared = 20 ∧
      (⟨[0, 1, -2]⟩ : DenseVector ℚ).normSquared = 5 := by
    decide +kernel
  refine ⟨⟨product, rows, rank, hproduct, hrows, hrank, ?_, (htfae.out 0 3).1 rfl⟩,
    (isParallel_tfae ⟨[0, 2]⟩ ⟨[0]⟩).2 (by decide)⟩
  rw [← hlengths.1, ← hlengths.2]
  exact (htfae.out 0 2).1 rfl

end DenseVector

end LinearSystems
