import LinearSystems.Proofs.Rational.Singularity

/-!
# Ranks and determinants of products and transposes

Two numbers are read off an elimination, the rank and the determinant. An elimination treats rows
and columns differently, and the eliminations of a product and of its factors have no pivots and no
exchanges in common. Over the rationals the two numbers nevertheless do what those of linear algebra
do, because they are those of linear algebra (`Sweep.rank_after`, `determinant_tabulate`).

* `rank_of_transpose_and_product`: a matrix and its transpose have the same rank, and no product has
  a larger rank than one of its factors; a regular factor on the left keeps the rank.
* `determinant_of_product_transpose_and_multiple`: the determinant is multiplicative, is kept by
  transposition, and takes out a scalar once for every row.
-/

namespace LinearSystems.DenseMatrix

open Matrix

variable {r c n : ℕ} {f : Grid ℚ}

/-! ### Ranks -/

/-- A matrix that has an inverse is square and regular. -/
theorem regular_of_inverse {inv : DenseMatrix ℚ}
    (h : (tabulate r c f).inverse.outcome = .ok inv) : r = c ∧ (f.corner r r).det ≠ 0 := by
  have hsquare : r = c := by
    by_contra hne
    rw [outcome_inverse_of_ne hne] at h
    cases h
  subst hsquare
  refine ⟨rfl, fun hdet => ?_⟩
  rw [outcome_inverse_eq_singular_iff.2 hdet] at h
  cases h

/-- A factor on the left that has an inverse keeps the rank. -/
theorem rank_mul_of_inverse {g : Grid ℚ} {inv : DenseMatrix ℚ}
    (h : (tabulate r n f).inverse.outcome = .ok inv) :
    (f.corner r n * g.corner n c).rank = (g.corner n c).rank := by
  obtain ⟨rfl, hdet⟩ := regular_of_inverse h
  exact rank_mul_eq_right_of_isUnit_det _ _ hdet.isUnit

/-- **Ranks of transposes and products.** The rank of a matrix is that of its transpose. The rank of
a product is at most that of either factor, and it is the rank of the right factor if the left one
has an inverse. -/
theorem rank_of_transpose_and_product {a : DenseMatrix ℚ} (ha : a.WellFormed) :
    ∃ rank t, a.rank.outcome = .ok rank ∧ a.transpose = .ok t ∧ t.rank.outcome = .ok rank ∧
      ∀ b : DenseMatrix ℚ, b.WellFormed → a.ncols = b.nrows →
        ∃ rankRight p rankProduct, b.rank.outcome = .ok rankRight ∧ a.mul b = .ok p ∧
          p.rank.outcome = .ok rankProduct ∧ rankProduct ≤ min rank rankRight ∧
          ∀ inv, a.inverse.outcome = .ok inv → rankProduct = rankRight := by
  obtain ⟨r, n, f, rfl⟩ : ∃ r n, ∃ f : Grid ℚ, a = tabulate r n f :=
    ⟨_, _, _, eq_tabulate_entry ha rfl rfl⟩
  refine ⟨_, _, outcome_rank_tabulate f, transpose_tabulate f, ?_, fun b hb hn => ?_⟩
  · rw [outcome_rank_tabulate, Grid.corner_transpose, rank_transpose]
  · obtain ⟨c, g, rfl⟩ : ∃ c, ∃ g : Grid ℚ, b = tabulate n c g :=
      ⟨_, _, eq_tabulate_entry hb hn.symm rfl⟩
    refine ⟨_, _, _, outcome_rank_tabulate g, mul_tabulate f g, outcome_rank_tabulate _, ?_,
      fun inv hinv => ?_⟩
    · rw [Grid.corner_mul]
      exact rank_mul_le _ _
    · rw [Grid.corner_mul]
      exact rank_mul_of_inverse hinv

/-- A wide matrix with proportional rows has the rank of its transpose. A regular factor on the left
keeps the rank of a matrix, although the elimination of the product exchanges rows. -/
theorem rank_of_transpose_and_product_of_exchange :
    let wide : DenseMatrix ℚ := ⟨2, 3, #[1, 2, 3, 2, 4, 6]⟩
    let regular : DenseMatrix ℚ := ⟨2, 2, #[0, 1, 1, 1]⟩
    (∃ t, wide.transpose = .ok t ∧ t.rank.outcome = .ok 1) ∧
      ∃ p, regular.mul wide = .ok p ∧ p.rank.outcome = .ok 1 := by
  intro wide regular
  have hone : wide.rank.outcome = .ok 1 := by decide +kernel
  have hinv : regular.inverse.outcome = .ok ⟨2, 2, #[-1, 1, 1, 0]⟩ := by decide +kernel
  obtain ⟨rank, t, hrank, ht, htrank, -⟩ := rank_of_transpose_and_product (a := wide) (by decide)
  obtain ⟨_, _, -, -, -, hproduct⟩ := rank_of_transpose_and_product (a := regular) (by decide)
  obtain ⟨rankRight, p, rankProduct, hright, hp, hprank, -, hkept⟩ :=
    hproduct wide (by decide) rfl
  obtain rfl := Except.ok.inj (hrank.symm.trans hone)
  obtain rfl := Except.ok.inj (hright.symm.trans hone)
  obtain rfl := hkept _ hinv
  exact ⟨⟨t, ht, htrank⟩, p, hp, hprank⟩

/-! ### Determinants -/

/-- **Determinants of products, transposes and multiples**, for square matrices of every size down
to zero, regular or singular. -/
theorem determinant_of_product_transpose_and_multiple {a b : DenseMatrix ℚ} (ha : a.WellFormed)
    (hb : b.WellFormed) (hashape : a.shape = (n, n)) (hbshape : b.shape = (n, n)) (x : ℚ) :
    ∃ p t det det', a.mul b = .ok p ∧ a.transpose = .ok t ∧
      a.determinant.outcome = .ok det ∧ b.determinant.outcome = .ok det' ∧
      p.determinant.outcome = .ok (det * det') ∧ t.determinant.outcome = .ok det ∧
      (a.scale x).determinant.outcome = .ok (x ^ n * det) := by
  obtain ⟨f, rfl⟩ : ∃ f, a = tabulate n n f :=
    ⟨_, eq_tabulate_entry ha (Prod.ext_iff.1 hashape).1 (Prod.ext_iff.1 hashape).2⟩
  obtain ⟨g, rfl⟩ : ∃ g, b = tabulate n n g :=
    ⟨_, eq_tabulate_entry hb (Prod.ext_iff.1 hbshape).1 (Prod.ext_iff.1 hbshape).2⟩
  refine ⟨_, _, _, _, mul_tabulate f g, transpose_tabulate f, determinant_tabulate f,
    determinant_tabulate g, ?_, ?_, ?_⟩
  · rw [determinant_tabulate, Grid.corner_mul, det_mul]
  · rw [determinant_tabulate, Grid.corner_transpose, det_transpose]
  · rw [scale_tabulate, determinant_tabulate, Grid.corner_scale, det_smul, Fintype.card_fin]

/-- A singular factor makes a product singular. A regular one of size two, with one exchange of
rows, is multiplied by three: its determinant is multiplied by nine. -/
theorem determinant_of_singular_product :
    let a : DenseMatrix ℚ := ⟨2, 2, #[0, 2, 3, 5]⟩
    let b : DenseMatrix ℚ := ⟨2, 2, #[1, 2, 2, 4]⟩
    (∃ p, a.mul b = .ok p ∧ p.determinant.outcome = .ok 0) ∧
      (a.scale 3).determinant.outcome = .ok (3 ^ 2 * -6) := by
  intro a b
  obtain ⟨p, t, det, det', hp, -, hdet, hdet', hproduct, -, hmultiple⟩ :=
    determinant_of_product_transpose_and_multiple (a := a) (b := b) (by decide) (by decide) rfl
      rfl 3
  have hleft : a.determinant.outcome = .ok (-6) := by decide +kernel
  have hright : b.determinant.outcome = .ok 0 := by decide +kernel
  obtain rfl := Except.ok.inj (hdet.symm.trans hleft)
  obtain rfl := Except.ok.inj (hdet'.symm.trans hright)
  rw [mul_zero] at hproduct
  exact ⟨⟨p, hp, hproduct⟩, hmultiple⟩

end LinearSystems.DenseMatrix
