import LinearSystems.Proofs.DenseMatrix.Cofactors
import LinearSystems.Proofs.Rational.Products

/-!
# The algebra of rational matrices

Matrices in flat storage form the algebra they stand for. The laws are those of linear algebra, but
the two sides of each are different computations: other intermediate shapes, other orders of the
sums, and accesses to the storage any of which might fail. `Agree` says that both sides succeed, and
with the same result. `HasShape` is all that is asked of the operands, so matrices without rows or
without columns are included.

* `agree_mul_assoc`: products are associative.
* `identity_mul`, `mul_identity`: the identity matrices are units.
* `Distributive.agree_mul`, `Distributive.agree_combine`: products distribute over sums and over
  differences, from either side.
* `agree_transpose_mul`: a transposed product is the product of the transposes, the other way round.
* `transpose_transpose`: transposing twice gives the matrix back.
* `agree_mulVec_mul`, `exists_mul_column`: the product with a vector is that with its column.
-/

namespace LinearSystems

/-- Both computations succeed, and with the same result. -/
def Agree {α : Type} (x y : Except Fault α) : Prop :=
  ∃ a, x = .ok a ∧ y = .ok a

namespace DenseMatrix

variable {r c n k : ℕ}

/-- A well-formed matrix of the given shape. -/
structure HasShape {K : Type} (m : DenseMatrix K) (r c : ℕ) : Prop where
  wellFormed : m.WellFormed
  shape_eq : m.shape = (r, c)

theorem HasShape.exists_tabulate {m : DenseMatrix ℚ} (h : HasShape m r c) :
    ∃ f : Grid ℚ, m = tabulate r c f := by
  obtain ⟨hrows, hcols⟩ := Prod.mk.inj h.shape_eq
  exact ⟨_, eq_tabulate_entry h.wellFormed hrows hcols⟩

/-- Computations of tabulations agree if the grids do within the shape. -/
theorem agree_of_tabulate {x y : Except Fault (DenseMatrix ℚ)} {f g : Grid ℚ}
    (hx : x = .ok (tabulate r c f)) (hy : y = .ok (tabulate r c g))
    (h : ∀ i < r, ∀ j < c, f i j = g i j) : Agree x y :=
  ⟨_, hx, by rw [hy, tabulate_congr h]⟩

variable {a a' b b' d : DenseMatrix ℚ}

/-! ### Sums and products -/

theorem agree_mul_assoc (ha : HasShape a r n) (hb : HasShape b n c) (hd : HasShape d c k) :
    Agree (do (← a.mul b).mul d) (do a.mul (← b.mul d)) := by
  obtain ⟨f, rfl⟩ := ha.exists_tabulate
  obtain ⟨g, rfl⟩ := hb.exists_tabulate
  obtain ⟨e, rfl⟩ := hd.exists_tabulate
  refine agree_of_tabulate (by rw [mul_tabulate, ok_bind, mul_tabulate])
    (by rw [mul_tabulate, ok_bind, mul_tabulate]) fun i _ j _ => ?_
  -- both sides are sums over all pairs of inner indices
  simp only [Finset.mul_sum, Finset.sum_mul, mul_assoc]
  exact Finset.sum_comm

/-- An entrywise operation on matrices over which products distribute. -/
structure Distributive (combine : DenseMatrix ℚ → DenseMatrix ℚ → Except Fault (DenseMatrix ℚ))
    (op : ℚ → ℚ → ℚ) : Prop where
  combine_tabulate : ∀ {r c : ℕ} (f g : Grid ℚ),
    combine (tabulate r c f) (tabulate r c g) = .ok (tabulate r c fun i j => op (f i j) (g i j))
  mul_op : ∀ x y z, x * op y z = op (x * y) (x * z)
  op_mul : ∀ x y z, op x y * z = op (x * z) (y * z)
  sum_op : ∀ (x y : ℕ → ℚ) (n : ℕ), ∑ k ∈ Finset.range n, op (x k) (y k)
    = op (∑ k ∈ Finset.range n, x k) (∑ k ∈ Finset.range n, y k)

theorem distributive_add : Distributive add (· + ·) where
  combine_tabulate := add_tabulate
  mul_op := mul_add
  op_mul := add_mul
  sum_op _ _ _ := Finset.sum_add_distrib

theorem distributive_sub : Distributive sub (· - ·) where
  combine_tabulate := sub_tabulate
  mul_op := mul_sub
  op_mul := sub_mul
  sum_op x y _ := Finset.sum_sub_distrib x y

section Distributive

variable {combine : DenseMatrix ℚ → DenseMatrix ℚ → Except Fault (DenseMatrix ℚ)} {op : ℚ → ℚ → ℚ}

theorem Distributive.agree_mul (h : Distributive combine op) (ha : HasShape a r n)
    (hb : HasShape b n c) (hb' : HasShape b' n c) :
    Agree (do a.mul (← combine b b')) (do combine (← a.mul b) (← a.mul b')) := by
  obtain ⟨f, rfl⟩ := ha.exists_tabulate
  obtain ⟨g, rfl⟩ := hb.exists_tabulate
  obtain ⟨g', rfl⟩ := hb'.exists_tabulate
  refine agree_of_tabulate (by rw [h.combine_tabulate, ok_bind, mul_tabulate])
    (by rw [mul_tabulate, mul_tabulate, ok_bind, ok_bind, h.combine_tabulate]) fun i _ j _ => ?_
  simp only [h.mul_op, h.sum_op]

theorem Distributive.agree_combine (h : Distributive combine op) (ha : HasShape a r n)
    (ha' : HasShape a' r n) (hb : HasShape b n c) :
    Agree (do (← combine a a').mul b) (do combine (← a.mul b) (← a'.mul b)) := by
  obtain ⟨f, rfl⟩ := ha.exists_tabulate
  obtain ⟨f', rfl⟩ := ha'.exists_tabulate
  obtain ⟨g, rfl⟩ := hb.exists_tabulate
  refine agree_of_tabulate (by rw [h.combine_tabulate, ok_bind, mul_tabulate])
    (by rw [mul_tabulate, mul_tabulate, ok_bind, ok_bind, h.combine_tabulate]) fun i _ j _ => ?_
  simp only [h.op_mul, h.sum_op]

end Distributive

/-! ### Units and transposes -/

theorem identity_mul (ha : HasShape a r n) : (identity r).mul a = .ok a := by
  obtain ⟨f, rfl⟩ := ha.exists_tabulate
  refine mul_eq_ok_iff_corner.2 ((congrArg (· * f.corner r n) ?_).trans (Matrix.one_mul _))
  exact Grid.corner_identity r

theorem mul_identity (ha : HasShape a r n) : a.mul (identity n) = .ok a := by
  obtain ⟨f, rfl⟩ := ha.exists_tabulate
  refine mul_eq_ok_iff_corner.2 ((congrArg (f.corner r n * ·) ?_).trans (Matrix.mul_one _))
  exact Grid.corner_identity n

theorem agree_transpose_mul (ha : HasShape a r n) (hb : HasShape b n c) :
    Agree (do (← a.mul b).transpose) (do (← b.transpose).mul (← a.transpose)) := by
  obtain ⟨f, rfl⟩ := ha.exists_tabulate
  obtain ⟨g, rfl⟩ := hb.exists_tabulate
  refine agree_of_tabulate (by rw [mul_tabulate, ok_bind, transpose_tabulate])
    (by rw [transpose_tabulate, transpose_tabulate, ok_bind, ok_bind, mul_tabulate])
    fun j _ i _ => ?_
  exact Finset.sum_congr rfl fun l _ => mul_comm (f i l) (g l j)

theorem transpose_transpose (ha : HasShape a r n) : (do (← a.transpose).transpose) = .ok a := by
  obtain ⟨f, rfl⟩ := ha.exists_tabulate
  rw [transpose_tabulate, ok_bind, transpose_tabulate]

/-! ### Products with vectors -/

theorem agree_mulVec_mul (ha : HasShape a r n) (hb : HasShape b n c) {x : DenseVector ℚ}
    (hx : x.dim = c) : Agree (do (← a.mul b).mulVec x) (do a.mulVec (← b.mulVec x)) := by
  obtain ⟨f, rfl⟩ := ha.exists_tabulate
  obtain ⟨g, rfl⟩ := hb.exists_tabulate
  rw [DenseVector.eq_tabulate_entry hx]
  refine ⟨_, by rw [mul_tabulate, ok_bind, mulVec_tabulate], ?_⟩
  rw [mulVec_tabulate, ok_bind, mulVec_tabulate]
  refine congrArg Except.ok (DenseVector.tabulate_congr fun i _ => ?_)
  simp only [Finset.mul_sum, Finset.sum_mul, mul_assoc]
  exact Finset.sum_comm

/-- The product with a vector is the only column of the product with the matrix of that column. -/
theorem exists_mul_column (ha : HasShape a r n) {x : DenseVector ℚ} (hx : x.dim = n) :
    ∃ p, (do a.mul (← ofColumns [x])) = .ok p ∧ p.ncols = 1 ∧
      Agree (a.mulVec x) (p.colVector 0) := by
  obtain ⟨f, rfl⟩ := ha.exists_tabulate
  rw [DenseVector.eq_tabulate_entry hx]
  have hcolumn : ofColumns [DenseVector.tabulate n x.entry]
      = .ok (tabulate n 1 fun i _ => x.entry i) :=
    ofColumns_tabulate Nat.one_pos fun _ => x.entry
  rw [hcolumn, ok_bind, mul_tabulate]
  exact ⟨_, rfl, rfl, _, mulVec_tabulate f x.entry, colVector_tabulate _ Nat.one_pos⟩

/-! ### The laws together -/

/-- **Rational matrices form an algebra**, for all shapes that fit, those without rows or without
columns included. Each equation holds of the computations: both sides succeed, with one result. -/
theorem laws_of_matrix_algebra (ha : HasShape a r n) (ha' : HasShape a' r n) (hb : HasShape b n c)
    (hb' : HasShape b' n c) (hd : HasShape d c k) {x y : DenseVector ℚ} (hx : x.dim = c)
    (hy : y.dim = n) :
    Agree (do (← a.mul b).mul d) (do a.mul (← b.mul d)) ∧
    Agree (do a.mul (← b.add b')) (do (← a.mul b).add (← a.mul b')) ∧
    Agree (do a.mul (← b.sub b')) (do (← a.mul b).sub (← a.mul b')) ∧
    Agree (do (← a.add a').mul b) (do (← a.mul b).add (← a'.mul b)) ∧
    Agree (do (← a.sub a').mul b) (do (← a.mul b).sub (← a'.mul b)) ∧
    (identity r).mul a = .ok a ∧ a.mul (identity n) = .ok a ∧
    Agree (do (← a.mul b).transpose) (do (← b.transpose).mul (← a.transpose)) ∧
    (do (← a.transpose).transpose) = .ok a ∧
    Agree (do (← a.mul b).mulVec x) (do a.mulVec (← b.mulVec x)) ∧
    ∃ p, (do a.mul (← ofColumns [y])) = .ok p ∧ p.ncols = 1 ∧
      Agree (a.mulVec y) (p.colVector 0) :=
  ⟨agree_mul_assoc ha hb hd, distributive_add.agree_mul ha hb hb',
    distributive_sub.agree_mul ha hb hb', distributive_add.agree_combine ha ha' hb,
    distributive_sub.agree_combine ha ha' hb, identity_mul ha, mul_identity ha,
    agree_transpose_mul ha hb, transpose_transpose ha, agree_mulVec_mul ha hb hx,
    exists_mul_column ha hy⟩

/-- A wide matrix, a tall one, and one without columns: the product of all three has two rows and
no entries, and the transpose of the first product is computed from the factors. -/
theorem laws_of_wide_and_tall :
    let a : DenseMatrix ℚ := ⟨2, 3, #[1, 2, 3, 4, 5, 6]⟩
    let b : DenseMatrix ℚ := ⟨3, 1, #[1, 0, -1]⟩
    let d : DenseMatrix ℚ := ⟨1, 0, #[]⟩
    HasShape a 2 3 ∧ HasShape b 3 1 ∧ HasShape d 1 0 ∧
      Agree (do (← a.mul b).mul d) (do a.mul (← b.mul d)) ∧
      (do (← b.transpose).mul (← a.transpose)) = .ok ⟨1, 2, #[-2, -2]⟩ := by
  intro a b d
  have ha : HasShape a 2 3 := ⟨by decide, rfl⟩
  have hb : HasShape b 3 1 := ⟨by decide, rfl⟩
  have hd : HasShape d 1 0 := ⟨by decide, rfl⟩
  obtain ⟨hassoc, -, -, -, -, -, -, ⟨p, hleft, hright⟩, -⟩ :=
    laws_of_matrix_algebra ha ha hb hb hd (x := ⟨[1]⟩) (y := ⟨[1, 1, 1]⟩) rfl rfl
  have hproduct : (do (← a.mul b).transpose) = .ok ⟨1, 2, #[-2, -2]⟩ := by decide +kernel
  exact ⟨ha, hb, hd, hassoc, hright.trans (hleft.symm.trans hproduct)⟩

end DenseMatrix

end LinearSystems
