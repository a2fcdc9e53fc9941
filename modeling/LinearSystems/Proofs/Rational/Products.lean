import LinearSystems.Proofs.DenseMatrix.Layout
import LinearSystems.Proofs.Rational.RowEquivalence
import LinearSystems.DenseMatrix.Operations

/-!
# Products and equality of rational matrices

Over the rationals a sum of products that is computed from the left is a finite sum, so the
products of matrices and vectors are those of linear algebra, and matrices count as equal exactly
if they are.
-/

namespace LinearSystems

variable {r c n : ℕ}

namespace Rational

/-- A sum that is computed from the left. -/
theorem foldl_add (x : ℕ → ℚ) (n : ℕ) :
    (List.range n).foldl (fun sum k => sum + x k) 0 = ∑ k ∈ Finset.range n, x k := by
  induction n with
  | zero => rfl
  | succ n ih =>
    rw [List.range_succ, List.foldl_append, ih, Finset.sum_range_succ]
    rfl

/-- A sum of products that is computed from the left. -/
theorem foldl_addMul (x y : ℕ → ℚ) (n : ℕ) :
    (List.range n).foldl (fun sum k => Scalar.addMul sum (x k) (y k)) Scalar.zero
      = ∑ k ∈ Finset.range n, x k * y k :=
  foldl_add (fun k => x k * y k) n

/-- A finite family is the beginning of a sequence. -/
theorem exists_sequence (w : Fin n → ℚ) : ∃ x : ℕ → ℚ, ∀ i : Fin n, x i = w i :=
  ⟨fun i => if h : i < n then w ⟨i, h⟩ else 0, fun i => dif_pos i.isLt⟩

/-- Lists of one length whose entries count as the same are equal. -/
theorem all_zip_equal_iff {xs ys : List ℚ} (h : xs.length = ys.length) :
    ((xs.zip ys).all fun p => Scalar.equal p.1 p.2) = true ↔ xs = ys := by
  induction xs generalizing ys with
  | nil =>
    obtain rfl := List.length_eq_zero_iff.1 h.symm
    simp
  | cons x xs ih =>
    obtain ⟨y, ys, rfl⟩ := List.exists_cons_of_length_eq_add_one h.symm
    rw [List.zip_cons_cons, List.all_cons, Bool.and_eq_true, equal_iff,
      ih (Nat.succ.inj h), List.cons.injEq]

end Rational

namespace DenseVector

theorem sumOfProducts_eq_sum (x y : ℕ → ℚ) (n : ℕ) :
    sumOfProducts ((List.range n).map x) ((List.range n).map y)
      = ∑ k ∈ Finset.range n, x k * y k := by
  rw [sumOfProducts, List.zip_map', List.foldl_map, Rational.foldl_addMul]

/-- Rational vectors count as equal exactly if they are. -/
theorem equal_iff {v w : DenseVector ℚ} : v.equal w = true ↔ v = w := by
  obtain ⟨xs⟩ := v
  obtain ⟨ys⟩ := w
  rw [equal, Bool.and_eq_true, beq_iff_eq, mk.injEq]
  constructor
  · rintro ⟨hlength, hall⟩
    exact (Rational.all_zip_equal_iff hlength).1 hall
  · rintro rfl
    exact ⟨rfl, (Rational.all_zip_equal_iff rfl).2 rfl⟩

end DenseVector

namespace DenseMatrix

theorem rowTimesCol_tabulate (f g : Grid ℚ) {i j : ℕ} (hi : i < r) (hj : j < c) :
    rowTimesCol (tabulate r n f) (tabulate n c g) i j
      = .ok (∑ k ∈ Finset.range n, f i k * g k j) := by
  rw [rowTimesCol, ncols_tabulate, foldlM_eq_ok
    (g := fun sum k => Scalar.addMul sum (f i k) (g k j)), Rational.foldl_addMul]
  intro sum k hk
  have hk' : k < n := List.mem_range.1 hk
  rw [get_tabulate f hi hk', ok_bind, get_tabulate g hk' hj, ok_bind, pure_eq_ok]

theorem mul_tabulate (f g : Grid ℚ) :
    (tabulate r n f).mul (tabulate n c g)
      = .ok (tabulate r c fun i j => ∑ k ∈ Finset.range n, f i k * g k j) := by
  rw [mul, ncols_tabulate, nrows_tabulate, if_pos rfl]
  exact tabulateM_eq_ok fun i hi j hj => rowTimesCol_tabulate f g hi hj

theorem mulVec_tabulate (f : Grid ℚ) (x : ℕ → ℚ) :
    (tabulate r c f).mulVec (DenseVector.tabulate c x)
      = .ok (DenseVector.tabulate r fun i => ∑ j ∈ Finset.range c, f i j * x j) := by
  have hrow : ∀ i ∈ List.range r,
      ((tabulate r c f).row i >>= fun row =>
        pure (DenseVector.sumOfProducts row (DenseVector.tabulate c x).entries))
        = .ok (∑ j ∈ Finset.range c, f i j * x j) := by
    intro i hi
    rw [row_tabulate f (List.mem_range.1 hi), ok_bind, pure_eq_ok, DenseVector.tabulate,
      DenseVector.sumOfProducts_eq_sum]
  rw [mulVec, ncols_tabulate, nrows_tabulate, if_pos (by simp), mapM_eq_ok hrow]
  rfl

/-- A product with a vector, by the entries of the vector. -/
theorem mulVec_eq_ok_iff {f : Grid ℚ} {b : ℕ → ℚ} {x : DenseVector ℚ} :
    (tabulate r c f).mulVec x = .ok (DenseVector.tabulate r b) ↔
      x.dim = c ∧ ∀ i < r, ∑ j ∈ Finset.range c, f i j * x.entry j = b i := by
  rcases eq_or_ne x.dim c with rfl | hdim
  · have hproduct := mulVec_tabulate (r := r) (c := x.dim) f x.entry
    rw [DenseVector.tabulate_entry] at hproduct
    rw [hproduct, Except.ok.injEq, DenseVector.tabulate_inj, eq_self_iff_true, true_and]
  · rw [mulVec, ncols_tabulate, if_neg hdim]
    exact iff_of_false nofun fun h => hdim h.1

/-- Rational matrices count as equal exactly if they are. -/
theorem equal_iff {m n : DenseMatrix ℚ} : m.equal n = true ↔ m = n := by
  obtain ⟨r, c, xs⟩ := m
  obtain ⟨r', c', ys⟩ := n
  simp only [equal, Bool.and_eq_true, beq_iff_eq, mk.injEq]
  constructor
  · rintro ⟨⟨⟨hsize, hall⟩, hrows⟩, hcols⟩
    rw [← Array.all_toList, Array.toList_zip, Rational.all_zip_equal_iff (by simpa using hsize)]
      at hall
    exact ⟨hrows, hcols, Array.toList_inj.1 hall⟩
  · rintro ⟨rfl, rfl, rfl⟩
    refine ⟨⟨⟨rfl, ?_⟩, rfl⟩, rfl⟩
    rw [← Array.all_toList, Array.toList_zip]
    exact (Rational.all_zip_equal_iff rfl).2 rfl

end DenseMatrix

/-! ### Products as products of matrices -/

/-- The matrix of a product is the product of the matrices. -/
theorem Grid.corner_mul (f g : Grid ℚ) :
    Grid.corner r c (fun i j => ∑ k ∈ Finset.range n, f i k * g k j)
      = f.corner r n * g.corner n c := by
  ext i j
  rw [Matrix.mul_apply, Grid.corner_apply, Finset.sum_range]
  rfl

/-- The matrix of a transposed grid is the transposed matrix. -/
theorem Grid.corner_transpose (f : Grid ℚ) :
    Grid.corner c r (fun i j => f j i) = (f.corner r c).transpose := rfl

/-- The matrix of a multiple is the multiple of the matrix. -/
theorem Grid.corner_scale (f : Grid ℚ) (x : ℚ) :
    Grid.corner r c (fun i j => Scalar.mul (f i j) x) = x • f.corner r c := by
  ext i j
  rw [Matrix.smul_apply, Grid.corner_apply, Grid.corner_apply, smul_eq_mul, Rational.mul_eq,
    mul_comm]

/-- The matrix of the identity is the identity. -/
theorem Grid.corner_identity (n : ℕ) :
    Grid.corner n n (fun i j => if i = j then 1 else 0) = 1 := by
  ext i j
  rw [Grid.corner_apply, Matrix.one_apply]
  simp only [Fin.ext_iff]

namespace DenseMatrix

/-- Tabulations are equal exactly if their matrices are. -/
theorem tabulate_eq_iff_corner {f g : Grid ℚ} :
    tabulate r c f = tabulate r c g ↔ f.corner r c = g.corner r c := by
  rw [tabulate_inj]
  constructor
  · intro h
    ext i j
    exact h i i.isLt j j.isLt
  · intro h i hi j hj
    exact congrFun (congrFun h ⟨i, hi⟩) ⟨j, hj⟩

/-- A product of tabulations, as a product of matrices. -/
theorem mul_eq_ok_iff_corner {f g k : Grid ℚ} :
    (tabulate r n f).mul (tabulate n c g) = .ok (tabulate r c k)
      ↔ f.corner r n * g.corner n c = k.corner r c := by
  rw [mul_tabulate, Except.ok.injEq, tabulate_eq_iff_corner, Grid.corner_mul]

/-- A product with a tabulated vector, as a product of a matrix and a vector. -/
theorem mulVec_eq_ok_iff_corner {f : Grid ℚ} {x b : ℕ → ℚ} :
    (tabulate r c f).mulVec (DenseVector.tabulate c x) = .ok (DenseVector.tabulate r b)
      ↔ (f.corner r c).mulVec (fun j => x j) = fun i : Fin r => b i := by
  rw [mulVec_tabulate, Except.ok.injEq, DenseVector.tabulate_inj, funext_iff, Fin.forall_iff]
  refine forall_congr' fun i => forall_congr' fun hi => ?_
  rw [Finset.sum_range]
  rfl

/-- One factor is a left inverse of the other exactly if its matrix is. -/
theorem mul_eq_identity_iff_corner {f g : Grid ℚ} :
    (tabulate n n f).mul (tabulate n n g) = .ok (identity n)
      ↔ f.corner n n * g.corner n n = 1 := by
  rw [← Grid.corner_identity, identity, rectangularIdentity]
  exact mul_eq_ok_iff_corner

end DenseMatrix

end LinearSystems
