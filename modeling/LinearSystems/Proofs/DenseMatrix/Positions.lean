import LinearSystems.Proofs.DenseMatrix.Shapes
import LinearSystems.Proofs.Rational.Scalar

/-!
# Rows and columns of stored positions

Minors, the signs of cofactors and the test for the identity are written on positions of the
storage, and recompute the row and the column of each by division. Here they are described by rows
and columns alone, for scalars of every kind and for every shape, the empty ones included.

* A minor keeps the entries outside of one row and one column, and closes the gaps
  (`exists_minor`). That it has no others, and has them in the right order, is a matter of counting:
  how many positions of the storage are kept before a given one (`minor_tabulate`).
* Deleting a row and a column and exchanging rows with columns commute (`exists_transpose_minor`).
* The signs of the cofactors alternate along rows and columns (`get_cofactor`).
* A matrix passes for the identity if it has what counts as one on the diagonal, and what counts as
  zero elsewhere (`isIdentity_iff_get`).
-/

namespace LinearSystems.DenseMatrix

variable {K : Type} [Scalar K] {m : DenseMatrix K}

/-- **The entries of a minor**: those before the deleted row and column keep their places, and those
behind move up. -/
theorem exists_minor (h : m.WellFormed) {row col : ℕ} (hrow : row < m.nrows)
    (hcol : col < m.ncols) :
    ∃ d, m.minor row col = .ok d ∧ d.WellFormed ∧ d.shape = (m.nrows - 1, m.ncols - 1) ∧
      ∀ i < m.nrows - 1, ∀ j < m.ncols - 1, ∃ e, d.get i j = .ok e ∧
        m.get (if i < row then i else i + 1) (if j < col then j else j + 1) = .ok e := by
  have hminor := minor_tabulate m.entry hrow hcol
  rw [tabulate_entry h] at hminor
  refine ⟨_, hminor, tabulate_wellFormed _ _ _, rfl, fun i hi j hj => ?_⟩
  have hskip {k n l : ℕ} (hl : l < n - 1) : (if l < k then l else l + 1) < n := by
    split <;> omega
  exact ⟨_, get_tabulate _ hi hj, get_eq_entry h (hskip hi) (hskip hj)⟩

/-- **The transpose of a minor is a minor of the transpose.** -/
theorem exists_transpose_minor (h : m.WellFormed) {row col : ℕ} (hrow : row < m.nrows)
    (hcol : col < m.ncols) :
    ∃ u, (m.minor row col >>= transpose) = .ok u ∧
      (m.transpose >>= fun t => t.minor col row) = .ok u := by
  obtain ⟨r, c, f, rfl⟩ : ∃ r c, ∃ f : Grid K, m = tabulate r c f :=
    ⟨_, _, _, eq_tabulate_entry h rfl rfl⟩
  rw [nrows_tabulate] at hrow
  rw [ncols_tabulate] at hcol
  refine ⟨tabulate (c - 1) (r - 1) fun j i => f (Grid.skip row i) (Grid.skip col j), ?_, ?_⟩
  · rw [minor_tabulate f hrow hcol, ok_bind, transpose_tabulate]
  · rw [transpose_tabulate, ok_bind, minor_tabulate _ hcol hrow]

/-- **The signs of the cofactors**: an entry is negated exactly if its row and its column add up to
an odd number. -/
theorem get_cofactor (h : m.WellFormed) {i j : ℕ} (hi : i < m.nrows) (hj : j < m.ncols) :
    ∃ e, m.get i j = .ok e ∧
      m.cofactor.get i j = .ok (if (i + j) % 2 = 1 then Scalar.neg e else e) := by
  have hcofactor := cofactor_tabulate (r := m.nrows) (c := m.ncols) m.entry
  rw [tabulate_entry h] at hcofactor
  exact ⟨m.entry i j, get_eq_entry h hi hj, by rw [hcofactor, get_tabulate _ hi hj]⟩

/-- **What passes for the identity.** -/
theorem isIdentity_iff_get (h : m.WellFormed) :
    m.isIdentity = true ↔ ∀ i < m.nrows, ∀ j < m.ncols, ∃ e, m.get i j = .ok e ∧
      (if i = j then Scalar.isOne e else Scalar.isZero e) = true := by
  have hidentity := isIdentity_tabulate (r := m.nrows) (c := m.ncols) m.entry
  rw [tabulate_entry h] at hidentity
  rw [hidentity]
  refine forall_congr' fun i => forall_congr' fun hi => ?_
  refine forall_congr' fun j => forall_congr' fun hj => ?_
  simp [get_eq_entry h hi hj]

/-- **Operations on stored positions mean what they should.** In a well-formed matrix, of any shape
and over scalars without laws, a minor consists of the entries outside of its row and column, in
their order; its transpose is the minor of the transpose; the cofactors differ from the entries in
the signs at odd places, and nowhere else; and the test for the identity looks for ones on the
diagonal and zeros elsewhere. -/
theorem operations_on_positions (h : m.WellFormed) :
    (∀ row < m.nrows, ∀ col < m.ncols, ∃ d u,
      m.minor row col = .ok d ∧ d.WellFormed ∧ d.shape = (m.nrows - 1, m.ncols - 1) ∧
      (∀ i < m.nrows - 1, ∀ j < m.ncols - 1, ∃ e, d.get i j = .ok e ∧
        m.get (if i < row then i else i + 1) (if j < col then j else j + 1) = .ok e) ∧
      d.transpose = .ok u ∧ (m.transpose >>= fun t => t.minor col row) = .ok u) ∧
    (m.cofactor.WellFormed ∧ m.cofactor.shape = m.shape ∧
      ∀ i < m.nrows, ∀ j < m.ncols, ∃ e, m.get i j = .ok e ∧
        m.cofactor.get i j = .ok (if (i + j) % 2 = 1 then Scalar.neg e else e)) ∧
    (m.isIdentity = true ↔ ∀ i < m.nrows, ∀ j < m.ncols, ∃ e, m.get i j = .ok e ∧
      (if i = j then Scalar.isOne e else Scalar.isZero e) = true) := by
  refine ⟨fun row hrow col hcol => ?_, ⟨wellFormed_cofactor h, rfl, fun i hi j hj =>
    get_cofactor h hi hj⟩, isIdentity_iff_get h⟩
  obtain ⟨d, hminor, hwf, hshape, hentries⟩ := exists_minor h hrow hcol
  obtain ⟨u, hleft, hright⟩ := exists_transpose_minor h hrow hcol
  rw [hminor, ok_bind] at hleft
  exact ⟨d, u, hminor, hwf, hshape, hentries, hleft, hright⟩

/-- The middle column and the last row of two rows and three columns. -/
theorem operations_on_two_by_three :
    let m : DenseMatrix ℚ := ⟨2, 3, #[1, 2, 3, 4, 5, 6]⟩
    m.WellFormed ∧
      (∃ d u, m.minor 1 1 = .ok d ∧ d = ⟨1, 2, #[1, 3]⟩ ∧ d.transpose = .ok u ∧
        (m.transpose >>= fun t => t.minor 1 1) = .ok u) ∧
      m.cofactor.get 1 0 = .ok (-4) ∧ m.cofactor.get 1 1 = .ok 5 ∧ m.isIdentity = false := by
  intro m
  have hm : m.WellFormed := by decide
  obtain ⟨hminor, ⟨-, -, hcofactor⟩, hidentity⟩ := operations_on_positions hm
  obtain ⟨d, u, hd, -, -, -, hu, hu'⟩ := hminor 1 (by decide) 1 (by decide)
  have hminor : m.minor 1 1 = .ok ⟨1, 2, #[1, 3]⟩ := by decide +kernel
  have hentry {i j : ℕ} (hi : i < m.nrows) (hj : j < m.ncols) {e : ℚ} (he : m.get i j = .ok e) :
      m.cofactor.get i j = .ok (if (i + j) % 2 = 1 then Scalar.neg e else e) := by
    obtain ⟨e', he', hsigned⟩ := hcofactor i hi j hj
    obtain rfl := Except.ok.inj (he.symm.trans he')
    exact hsigned
  refine ⟨hm, ⟨d, u, hd, Except.ok.inj (hd.symm.trans hminor), hu, hu'⟩,
    hentry (e := 4) (by decide) (by decide) rfl, hentry (e := 5) (by decide) (by decide) rfl, ?_⟩
  rw [← Bool.not_eq_true, hidentity]
  intro hall
  obtain ⟨e, he, hzero⟩ := hall 0 (by decide) 1 (by decide)
  obtain rfl : (2 : ℚ) = e := Except.ok.inj he
  exact absurd hzero (by decide)

end LinearSystems.DenseMatrix
