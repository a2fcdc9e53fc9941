import LinearSystems.Proofs.DenseMatrix.Shapes
import LinearSystems.Proofs.Binary.Scalar

/-!
# Reachable matrices

`DenseMatrix.Reachable` is the least set of matrices that holds what the constructions make and is
closed under all operations on matrices, the assignment of a single entry included. Nothing in the
type of matrices ties the storage to the dimensions, and the operations trust each other: a wrong
length would shift every later row. `storage_of_reachable` says that no sequence of operations gets
there, and which shape each operation makes of a reachable matrix.

One operation keeps the storage and the shape together (`Shapes`); the whole sequence does by
induction, with one case for each operation. The scalars have no laws, and the shapes may be without
rows or without columns.
-/

namespace LinearSystems.DenseMatrix

variable {K : Type} [Scalar K] {m : DenseMatrix K}

/-- The matrices that can be made. -/
inductive Reachable : DenseMatrix K → Prop
  | zero (r c : ℕ) : Reachable (zero r c)
  | rectangularIdentity (r c : ℕ) : Reachable (rectangularIdentity r c)
  | ofLinear {entries : List K} {r c : ℕ} {result : DenseMatrix K}
      (h : ofLinear entries r c = .ok result) : Reachable result
  | ofNested {rows : List (List K)} {result : DenseMatrix K} (h : ofNested rows = .ok result) :
      Reachable result
  | ofRows {rows : List (DenseVector K)} {result : DenseMatrix K} (h : ofRows rows = .ok result) :
      Reachable result
  | ofColumns {columns : List (DenseVector K)} {result : DenseMatrix K}
      (h : ofColumns columns = .ok result) : Reachable result
  | transpose {m result : DenseMatrix K} (hm : Reachable m) (h : m.transpose = .ok result) :
      Reachable result
  | neg {m : DenseMatrix K} (hm : Reachable m) : Reachable m.neg
  | cofactor {m : DenseMatrix K} (hm : Reachable m) : Reachable m.cofactor
  | minorMatrix {m result : DenseMatrix K} (hm : Reachable m)
      (h : m.minorMatrix.outcome = .ok result) : Reachable result
  | adjugate {m result : DenseMatrix K} (hm : Reachable m) (h : m.adjugate.outcome = .ok result) :
      Reachable result
  | inverse {m result : DenseMatrix K} (hm : Reachable m) (h : m.inverse.outcome = .ok result) :
      Reachable result
  | minor {m result : DenseMatrix K} {i j : ℕ} (hm : Reachable m) (h : m.minor i j = .ok result) :
      Reachable result
  | replaceRow {m result : DenseMatrix K} {i : ℕ} {v : DenseVector K} (hm : Reachable m)
      (h : m.replaceRow i v = .ok result) : Reachable result
  | replaceCol {m result : DenseMatrix K} {j : ℕ} {v : DenseVector K} (hm : Reachable m)
      (h : m.replaceCol j v = .ok result) : Reachable result
  | augment {m result : DenseMatrix K} {b : DenseVector K} (hm : Reachable m)
      (h : m.augment b = .ok result) : Reachable result
  | left {m result : DenseMatrix K} {col : ℕ} (hm : Reachable m)
      (h : Prod.fst <$> m.splitAtCol col = .ok result) : Reachable result
  | right {m result : DenseMatrix K} {col : ℕ} (hm : Reachable m)
      (h : Prod.snd <$> m.splitAtCol col = .ok result) : Reachable result
  | scale {m : DenseMatrix K} (hm : Reachable m) (e : K) : Reachable (m.scale e)
  | add {m n result : DenseMatrix K} (hm : Reachable m) (hn : Reachable n)
      (h : m.add n = .ok result) : Reachable result
  | sub {m n result : DenseMatrix K} (hm : Reachable m) (hn : Reachable n)
      (h : m.sub n = .ok result) : Reachable result
  | mul {m n result : DenseMatrix K} (hm : Reachable m) (hn : Reachable n)
      (h : m.mul n = .ok result) : Reachable result
  | rowEchelonForm {m result : DenseMatrix K} (hm : Reachable m)
      (h : m.rowEchelonForm.outcome = .ok result) : Reachable result
  | rowReduce {m result : DenseMatrix K} {rank : ℕ} (hm : Reachable m)
      (h : m.rowReduce.outcome = .ok (result, rank)) : Reachable result
  | set {m result : DenseMatrix K} {i j : ℕ} {e : K} (hm : Reachable m)
      (h : m.set i j e = .ok result) : Reachable result

/-- **Reachable matrices are well-formed**: the storage has one entry for each position. -/
theorem Reachable.wellFormed (h : m.Reachable) : m.WellFormed := by
  induction h with
  | zero r c => exact wellFormed_zero r c
  | rectangularIdentity r c => exact tabulate_wellFormed r c _
  | ofLinear h => exact (yields_ofLinear ..).wellFormed _ h
  | ofNested h => exact (yields_ofNested _).wellFormed _ h
  | ofRows h => exact (yields_ofRows _).wellFormed _ h
  | ofColumns h => exact (yields_ofColumns _).wellFormed _ h
  | transpose _ h ih => exact (yields_transpose ih).wellFormed _ h
  | neg _ ih => exact wellFormed_neg ih
  | cofactor _ ih => exact wellFormed_cofactor ih
  | minorMatrix _ h ih => exact (yields_minorMatrix ih).wellFormed _ h
  | adjugate _ h ih => exact (yields_adjugate ih).wellFormed _ h
  | inverse _ h ih => exact (yields_inverse ih).wellFormed _ h
  | minor _ h ih => exact (yields_minor ih _ _).wellFormed _ h
  | replaceRow _ h ih => exact (yields_replaceRow ih _ _).wellFormed _ h
  | replaceCol _ h ih => exact (yields_replaceCol ih _ _).wellFormed _ h
  | augment _ h ih => exact (yields_augment ih _).wellFormed _ h
  | left _ h ih => exact (yields_splitAtCol ih _).1.wellFormed _ h
  | right _ h ih => exact (yields_splitAtCol ih _).2.wellFormed _ h
  | scale _ e ih => exact wellFormed_scale ih e
  | add _ _ h ihm ihn => exact (yields_add ihm ihn).wellFormed _ h
  | sub _ _ h ihm ihn => exact (yields_sub ihm ihn).wellFormed _ h
  | mul _ _ h ihm ihn => exact (yields_mul ihm ihn).wellFormed _ h
  | rowEchelonForm _ h ih => exact (yields_rowEchelonForm ih).wellFormed _ h
  | rowReduce _ h ih => exact (yields_rowReduce ih).wellFormed _ (by rw [h, map_ok])
  | set _ h ih => exact set_wellFormed ih h

/-- **The storage of a reachable matrix fits its dimensions**, whatever was done to get there, and
each further operation succeeds exactly if its operands fit and yields the shape that it stands for.
An assignment, and a row or a column that is replaced, need a position inside of the storage; a
column that is appended must be one that can be counted. -/
theorem storage_of_reachable (hm : m.Reachable) :
    m.entries.size = m.nrows * m.ncols ∧
    Yields m.transpose True m.ncols m.nrows ∧
    m.neg.shape = m.shape ∧ m.cofactor.shape = m.shape ∧ (∀ e, (m.scale e).shape = m.shape) ∧
    Yields m.minorMatrix.outcome (m.nrows = m.ncols) m.nrows m.ncols ∧
    Yields m.adjugate.outcome (m.nrows = m.ncols) m.nrows m.ncols ∧
    Yields m.inverse.outcome
      (∃ det, m.determinant.outcome = .ok det ∧ Scalar.isZero det = false) m.nrows m.ncols ∧
    (∀ i j, Yields (m.minor i j) (i < m.nrows ∧ j < m.ncols) (m.nrows - 1) (m.ncols - 1)) ∧
    (∀ i v, Yields (m.replaceRow i v) (v.dim = m.ncols ∧ (m.ncols = 0 ∨ i < m.nrows))
      m.nrows m.ncols) ∧
    (∀ j v, Yields (m.replaceCol j v) (v.dim = m.nrows ∧ (m.nrows = 0 ∨ j < m.ncols))
      m.nrows m.ncols) ∧
    (∀ b, Yields (m.augment b) (b.dim = m.nrows ∧ (m.nrows = 0 → m.ncols < columnLimit))
      m.nrows (m.ncols + 1)) ∧
    (∀ col, Yields (Prod.fst <$> m.splitAtCol col) (col ≤ m.ncols) m.nrows col ∧
      Yields (Prod.snd <$> m.splitAtCol col) (col ≤ m.ncols) m.nrows (m.ncols - col)) ∧
    (∀ n : DenseMatrix K, n.Reachable →
      Yields (m.add n) (m.shape = n.shape) m.nrows m.ncols ∧
      Yields (m.sub n) (m.shape = n.shape) m.nrows m.ncols ∧
      Yields (m.mul n) (m.ncols = n.nrows) m.nrows n.ncols) ∧
    Yields m.rowEchelonForm.outcome True m.nrows m.ncols ∧
    Yields (Prod.fst <$> m.rowReduce.outcome) True m.nrows m.ncols ∧
    ∀ i j e, Yields (m.set i j e) (m.linearPosition i j < m.entries.size) m.nrows m.ncols := by
  have h := hm.wellFormed
  refine ⟨h, yields_transpose h, rfl, rfl, fun _ => rfl, yields_minorMatrix h, yields_adjugate h,
    yields_inverse h, yields_minor h, yields_replaceRow h, yields_replaceCol h, yields_augment h,
    yields_splitAtCol h, fun n hn => ?_, yields_rowEchelonForm h, yields_rowReduce h, yields_set h⟩
  have hn := hn.wellFormed
  exact ⟨yields_add h hn, yields_sub h hn, yields_mul h hn⟩

open Binary in
/-- A matrix without columns has a product with one without rows, which has entries; it has no
minors. -/
theorem storage_of_product_without_columns :
    (∃ result, (DenseMatrix.zero 2 0 : DenseMatrix (Binary binary64)).mul (.zero 0 3) = .ok result ∧
      result.shape = (2, 3) ∧ result.entries.size = 6) ∧
    ¬∃ result, (DenseMatrix.zero 2 0 : DenseMatrix (Binary binary64)).minor 0 0 = .ok result := by
  obtain ⟨-, -, -, -, -, -, -, -, hminor, -, -, -, -, hbinary, -⟩ :=
    storage_of_reachable (K := Binary binary64) (.zero 2 0)
  obtain ⟨-, -, hmul⟩ := hbinary _ (.zero 0 3)
  obtain ⟨result, hresult⟩ := hmul.exists_iff.2 rfl
  have hshape : result.shape = (2, 3) := hmul.shape result hresult
  obtain ⟨hrows, hcols⟩ := Prod.mk.inj hshape
  have hsize := hmul.wellFormed result hresult
  rw [WellFormed, hrows, hcols] at hsize
  refine ⟨⟨result, hresult, hshape, hsize⟩, fun h => ?_⟩
  exact absurd ((hminor 0 0).exists_iff.1 h) (by decide)

end LinearSystems.DenseMatrix
