import LinearSystems.Proofs.DenseMatrix.Determinants

/-!
# Shapes

What each construction of a matrix and each operation on matrices needs in order to succeed, and
which shape its result has. `Yields x condition r c` says both of a computation `x`, and also that
the storage of the result has one entry for each position; there is one such lemma for each
operation that can fail.

The operations build their storage in different ways: positions are filtered, stored rows are cut
or extended, entries are computed one after the other or assigned in place. Nearly all of them take
tabulations to tabulations, so the shape is read off. Assignments are the exception, because they
check a position against the storage alone and not against the shape (`yields_foldlM_set`): a row
can be replaced if it exists or has no entries, and likewise a column.

No law of the scalars is used, and the shapes without rows or without columns are included.
-/

namespace LinearSystems.DenseMatrix

variable {K : Type} {r c : ℕ} {condition : Prop}

/-- The computation succeeds exactly under a condition, and then with a well-formed matrix of the
given shape. -/
structure Yields (x : Except Fault (DenseMatrix K)) (condition : Prop) (r c : ℕ) : Prop where
  exists_iff : (∃ m, x = .ok m) ↔ condition
  wellFormed : ∀ m, x = .ok m → m.WellFormed
  shape : ∀ m, x = .ok m → m.shape = (r, c)

namespace Yields

variable {x : Except Fault (DenseMatrix K)}

theorem of_ok {m : DenseMatrix K} (hcondition : condition) (hx : x = .ok m) (h : m.WellFormed)
    (hshape : m.shape = (r, c)) : Yields x condition r c := by
  subst hx
  refine ⟨iff_of_true ⟨m, rfl⟩ hcondition, ?_, ?_⟩
  · rintro _ ⟨⟩
    exact h
  · rintro _ ⟨⟩
    exact hshape

theorem of_tabulate {f : Grid K} (hcondition : condition) (hx : x = .ok (tabulate r c f)) :
    Yields x condition r c :=
  of_ok hcondition hx (tabulate_wellFormed r c f) rfl

theorem of_error {fault : Fault} (hcondition : ¬condition) (hx : x = .error fault) :
    Yields x condition r c := by
  subst hx
  exact ⟨iff_of_false nofun hcondition, nofun, nofun⟩

theorem congr {condition' : Prop} (h : Yields x condition r c) (hiff : condition ↔ condition') :
    Yields x condition' r c :=
  ⟨h.exists_iff.trans hiff, h.wellFormed, h.shape⟩

/-- A fault shows that the condition does not hold. -/
theorem not_of_eq_error {fault : Fault} (h : Yields x condition r c) (hx : x = .error fault) :
    ¬condition := by
  rintro hcondition
  obtain ⟨m, hm⟩ := h.exists_iff.2 hcondition
  rw [hx] at hm
  cases hm

/-- An operation on square matrices that refuses the others. -/
theorem of_square {m : DenseMatrix K} {fault : Fault}
    (hne : m.nrows ≠ m.ncols → x = .error fault)
    (hsquare : m.nrows = m.ncols → ∃ g : Grid K, x = .ok (tabulate m.nrows m.nrows g)) :
    Yields x (m.nrows = m.ncols) m.nrows m.ncols := by
  rcases ne_or_eq m.nrows m.ncols with hdiff | heq
  · exact .of_error hdiff (hne hdiff)
  · obtain ⟨g, hg⟩ := hsquare heq
    rw [← heq]
    exact .of_tabulate rfl hg

end Yields

/-! ### Constructions -/

theorem yields_ofLinear (entries : List K) (r c : ℕ) :
    Yields (ofLinear entries r c) (entries.length = r * c) r c := by
  by_cases hlength : entries.length = r * c
  · exact .of_ok hlength (if_pos hlength) (ofLinear_wellFormed (if_pos hlength)) rfl
  · exact .of_error hlength (if_neg hlength)

/-- Lists of one length make up a matrix. Without any, it has no columns either. -/
theorem yields_ofNested (rows : List (List K)) :
    Yields (ofNested rows) (∀ row ∈ rows, row.length = (rows.head?.map List.length).getD 0)
      rows.length ((rows.head?.map List.length).getD 0) := by
  by_cases hall : rows.all fun row => row.length == (rows.head?.map List.length).getD 0
  · exact .of_ok (by simpa using hall) (if_pos hall) (ofNested_wellFormed (if_pos hall)) rfl
  · exact .of_error (fun h => hall (by simpa using h)) (if_neg hall)

theorem yields_ofRows (rows : List (DenseVector K)) :
    Yields (ofRows rows) (∀ v ∈ rows, v.dim = (rows.head?.map DenseVector.dim).getD 0)
      rows.length ((rows.head?.map DenseVector.dim).getD 0) := by
  have h := yields_ofNested (rows.map DenseVector.entries)
  have hhead : ((rows.map DenseVector.entries).head?.map List.length).getD 0
      = (rows.head?.map DenseVector.dim).getD 0 := by
    rw [List.head?_map, Option.map_map]
    rfl
  rw [hhead, List.length_map, ← ofRows] at h
  exact h.congr List.forall_mem_map

variable {m n : DenseMatrix K}

/-! ### Assignments -/

theorem yields_set (h : m.WellFormed) (i j : ℕ) (e : K) :
    Yields (m.set i j e) (m.linearPosition i j < m.entries.size) m.nrows m.ncols := by
  by_cases hpos : m.linearPosition i j < m.entries.size
  · have hset : m.set i j e = .ok _ := dif_pos hpos
    exact .of_ok hpos hset (set_wellFormed h hset) rfl
  · exact .of_error hpos (dif_neg hpos)

/-- **A loop of assignments keeps the shape**, and succeeds exactly if all positions are inside of
the storage. -/
theorem yields_foldlM_set {α : Type} (row col : α → ℕ) (value : α → K) (l : List α)
    (h : m.WellFormed) :
    Yields (l.foldlM (fun m a => m.set (row a) (col a) (value a)) m)
      (∀ a ∈ l, m.linearPosition (row a) (col a) < m.entries.size) m.nrows m.ncols := by
  induction l generalizing m with
  | nil => exact .of_ok (fun _ ha => absurd ha List.not_mem_nil) rfl h rfl
  | cons a l ih =>
    rw [List.foldlM_cons]
    cases hset : m.set (row a) (col a) (value a) with
    | error fault =>
      have hfirst := (yields_set h (row a) (col a) (value a)).not_of_eq_error hset
      exact .of_error (fun hall => hfirst (hall a List.mem_cons_self)) (error_bind _ _)
    | ok m' =>
      -- the positions of the other assignments are what they were
      obtain ⟨hrows, hcols, hsize⟩ := set_eq_ok hset
      have hrest := ih (set_wellFormed h hset)
      simp only [linearPosition, hrows, hcols, hsize] at hrest
      have hfirst := (yields_set h (row a) (col a) (value a)).exists_iff.1 ⟨m', hset⟩
      refine hrest.congr ?_
      rw [List.forall_mem_cons, and_iff_right hfirst]
      rfl

variable [Scalar K]

theorem wellFormed_zero (r c : ℕ) : (zero r c : DenseMatrix K).WellFormed :=
  Array.size_replicate

/-! ### Rearranged entries -/

theorem yields_transpose (h : m.WellFormed) : Yields m.transpose True m.ncols m.nrows := by
  rw [eq_tabulate_entry h rfl rfl]
  exact .of_tabulate trivial (transpose_tabulate _)

/-- Vectors of one dimension make up the columns of a matrix. Without any, it has no rows
either. -/
theorem yields_ofColumns (columns : List (DenseVector K)) :
    Yields (ofColumns columns) (∀ v ∈ columns, v.dim = (columns.head?.map DenseVector.dim).getD 0)
      ((columns.head?.map DenseVector.dim).getD 0) columns.length := by
  have hrows := yields_ofRows columns
  cases hmatrix : ofRows columns with
  | error fault =>
    exact .of_error (hrows.not_of_eq_error hmatrix) (by rw [ofColumns, hmatrix, error_bind])
  | ok rows =>
    have htranspose := yields_transpose (hrows.wellFormed rows hmatrix)
    obtain ⟨hlength, hdim⟩ := Prod.mk.inj (hrows.shape rows hmatrix)
    rw [hlength, hdim] at htranspose
    rw [ofColumns, hmatrix, ok_bind]
    exact htranspose.congr (iff_of_true trivial (hrows.exists_iff.1 ⟨rows, hmatrix⟩))

theorem yields_minor (h : m.WellFormed) (i j : ℕ) :
    Yields (m.minor i j) (i < m.nrows ∧ j < m.ncols) (m.nrows - 1) (m.ncols - 1) := by
  by_cases hinside : i < m.nrows ∧ j < m.ncols
  · rw [eq_tabulate_entry h rfl rfl]
    exact .of_tabulate hinside (minor_tabulate _ hinside.1 hinside.2)
  · exact .of_error hinside (if_neg hinside)

/-- A column can be appended if it fits and can be counted. -/
theorem yields_augment (h : m.WellFormed) (b : DenseVector K) :
    Yields (m.augment b) (b.dim = m.nrows ∧ (m.nrows = 0 → m.ncols < columnLimit)) m.nrows
      (m.ncols + 1) := by
  by_cases hdim : b.dim = m.nrows
  · by_cases hroom : m.nrows = 0 → m.ncols < columnLimit
    · have haugment := augment_tabulate hroom m.entry b.entry
      rw [tabulate_entry h, ← DenseVector.eq_tabulate_entry hdim] at haugment
      exact .of_tabulate ⟨hdim, hroom⟩ haugment
    · have hfull : m.nrows = 0 ∧ columnLimit ≤ m.ncols := by
        simpa only [not_forall, Nat.not_lt, exists_prop] using hroom
      exact .of_error (fun hboth => hroom hboth.2)
        (augment_of_columnLimit_le hdim hfull.1 hfull.2)
  · exact .of_error (fun hboth => hdim hboth.1) (if_neg hdim)

/-- Both halves of a split have all rows, and share the columns. -/
theorem yields_splitAtCol (h : m.WellFormed) (col : ℕ) :
    Yields (Prod.fst <$> m.splitAtCol col) (col ≤ m.ncols) m.nrows col ∧
      Yields (Prod.snd <$> m.splitAtCol col) (col ≤ m.ncols) m.nrows (m.ncols - col) := by
  by_cases hcol : col ≤ m.ncols
  · have hsplit := splitAtCol_tabulate (r := m.nrows) m.entry hcol
    rw [tabulate_entry h] at hsplit
    rw [hsplit]
    exact ⟨.of_tabulate hcol rfl,
      .of_tabulate (f := fun i j => m.entry i (col + j)) hcol rfl⟩
  · rw [splitAtCol, if_neg hcol]
    exact ⟨.of_error hcol (map_error _ _), .of_error hcol (map_error _ _)⟩

/-! ### Replaced rows and columns -/

/-- A row can be replaced if it exists or has no entries. -/
theorem yields_replaceRow (h : m.WellFormed) (i : ℕ) (v : DenseVector K) :
    Yields (m.replaceRow i v) (v.dim = m.ncols ∧ (m.ncols = 0 ∨ i < m.nrows)) m.nrows m.ncols := by
  by_cases hdim : v.dim = m.ncols
  · rw [replaceRow, if_pos hdim, DenseVector.eq_tabulate_entry hdim, DenseVector.zipIdx_tabulate,
      List.foldlM_map]
    refine (yields_foldlM_set (fun _ => i) id v.entry _ h).congr ?_
    simp only [List.mem_range, id_eq, DenseVector.dim_tabulate, true_and]
    constructor
    · intro hall
      rcases Nat.eq_zero_or_pos m.ncols with hzero | hpos
      · exact Or.inl hzero
      · have hfirst := hall 0 hpos
        rw [h, linearPosition, Nat.add_zero] at hfirst
        exact Or.inr (Nat.lt_of_mul_lt_mul_right hfirst)
    · rintro (hzero | hi) j hj
      · exact absurd hj (by omega)
      · exact linearPosition_lt h hi hj
  · exact .of_error (fun hboth => hdim hboth.1) (if_neg hdim)

/-- A column can be replaced if it exists or has no entries. -/
theorem yields_replaceCol (h : m.WellFormed) (j : ℕ) (v : DenseVector K) :
    Yields (m.replaceCol j v) (v.dim = m.nrows ∧ (m.nrows = 0 ∨ j < m.ncols)) m.nrows m.ncols := by
  by_cases hdim : v.dim = m.nrows
  · rw [replaceCol, if_pos hdim, DenseVector.eq_tabulate_entry hdim, DenseVector.zipIdx_tabulate,
      List.foldlM_map]
    refine (yields_foldlM_set id (fun _ => j) v.entry _ h).congr ?_
    simp only [List.mem_range, id_eq, DenseVector.dim_tabulate, true_and]
    constructor
    · intro hall
      rcases Nat.eq_zero_or_pos m.nrows with hzero | hpos
      · exact Or.inl hzero
      · -- in the last row, the end of the storage is the end of the row
        obtain ⟨k, hk⟩ := Nat.exists_eq_add_of_lt hpos
        have hlast := hall k (by omega)
        rw [h, linearPosition, hk, Nat.zero_add, Nat.succ_mul] at hlast
        exact Or.inr (Nat.lt_of_add_lt_add_left hlast)
    · rintro (hzero | hj) i hi
      · exact absurd hi (by omega)
      · exact linearPosition_lt h hi hj
  · exact .of_error (fun hboth => hdim hboth.1) (if_neg hdim)

/-! ### Computed entries -/

theorem wellFormed_neg (h : m.WellFormed) : m.neg.WellFormed := by
  simpa [WellFormed, neg] using h

theorem wellFormed_cofactor (h : m.WellFormed) : m.cofactor.WellFormed := by
  simpa [WellFormed, cofactor] using h

theorem wellFormed_scale (h : m.WellFormed) (e : K) : (m.scale e).WellFormed := by
  simpa [WellFormed, scale] using h

omit [Scalar K] in
/-- Matrices of one shape are combined entry by entry, and others are refused. -/
theorem yields_zipWith (hm : m.WellFormed) (hn : n.WellFormed) (op : K → K → K) (fault : Fault) :
    Yields (if m.shape = n.shape then
        .ok ⟨m.nrows, m.ncols, Array.zipWith op m.entries n.entries⟩ else .error fault)
      (m.shape = n.shape) m.nrows m.ncols := by
  by_cases hshape : m.shape = n.shape
  · refine .of_ok hshape (if_pos hshape) ?_ rfl
    obtain ⟨hrows, hcols⟩ := Prod.mk.inj hshape
    simp only [WellFormed, Array.size_zipWith] at hm hn ⊢
    rw [hm, hn, hrows, hcols, Nat.min_self]
  · exact .of_error hshape (if_neg hshape)

theorem yields_add (hm : m.WellFormed) (hn : n.WellFormed) :
    Yields (m.add n) (m.shape = n.shape) m.nrows m.ncols :=
  yields_zipWith hm hn Scalar.add _

theorem yields_sub (hm : m.WellFormed) (hn : n.WellFormed) :
    Yields (m.sub n) (m.shape = n.shape) m.nrows m.ncols :=
  yields_zipWith hm hn Scalar.sub _

/-- A row and a column of one length have a product. -/
theorem exists_rowTimesCol (hm : m.WellFormed) (hn : n.WellFormed) (hinner : m.ncols = n.nrows)
    {i j : ℕ} (hi : i < m.nrows) (hj : j < n.ncols) : ∃ e, m.rowTimesCol n i j = .ok e := by
  refine ⟨_, foldlM_eq_ok (g := fun sum k => Scalar.addMul sum (m.entry i k) (n.entry k j)) ?_ _⟩
  intro sum k hk
  have hlt := List.mem_range.1 hk
  rw [get_eq_entry hm hi hlt, ok_bind, get_eq_entry hn (hinner ▸ hlt) hj, ok_bind, pure_eq_ok]

/-- A product has the rows of its first factor and the columns of the second. -/
theorem yields_mul (hm : m.WellFormed) (hn : n.WellFormed) :
    Yields (m.mul n) (m.ncols = n.nrows) m.nrows n.ncols := by
  by_cases hinner : m.ncols = n.nrows
  · obtain ⟨g, hg⟩ := exists_tabulateM fun _ hi _ hj => exists_rowTimesCol hm hn hinner hi hj
    exact .of_tabulate hinner ((if_pos hinner).trans hg)
  · exact .of_error hinner (if_neg hinner)

theorem yields_rowEchelonForm (h : m.WellFormed) :
    Yields m.rowEchelonForm.outcome True m.nrows m.ncols := by
  rw [eq_tabulate_entry h rfl rfl]
  exact .of_tabulate trivial (rowEchelonForm_tabulate _)

theorem yields_rowReduce (h : m.WellFormed) :
    Yields (Prod.fst <$> m.rowReduce.outcome) True m.nrows m.ncols := by
  rw [eq_tabulate_entry h rfl rfl, rowReduce_tabulate]
  exact .of_tabulate trivial rfl

/-! ### Determinants of minors -/

theorem yields_minorMatrix (h : m.WellFormed) :
    Yields m.minorMatrix.outcome (m.nrows = m.ncols) m.nrows m.ncols := by
  refine .of_square outcome_minorMatrix_of_ne fun hsquare => ?_
  have hminors := exists_minorMatrix_tabulate (n := m.nrows) m.entry
  rwa [← eq_tabulate_entry h rfl hsquare.symm] at hminors

theorem yields_adjugate (h : m.WellFormed) :
    Yields m.adjugate.outcome (m.nrows = m.ncols) m.nrows m.ncols := by
  refine .of_square outcome_adjugate_of_ne fun hsquare => ?_
  have hadjugate := exists_adjugate_tabulate (n := m.nrows) m.entry
  rwa [← eq_tabulate_entry h rfl hsquare.symm] at hadjugate

/-- An inverse exists if there is a determinant that does not count as zero. -/
theorem yields_inverse (h : m.WellFormed) :
    Yields m.inverse.outcome
      (∃ det, m.determinant.outcome = .ok det ∧ Scalar.isZero det = false) m.nrows m.ncols := by
  rcases ne_or_eq m.nrows m.ncols with hne | hsquare
  · refine .of_error ?_ (outcome_inverse_of_ne hne)
    rintro ⟨det, hdet, -⟩
    rw [outcome_determinant_of_ne hne] at hdet
    cases hdet
  · obtain ⟨det, hdet⟩ := exists_determinant_tabulate (n := m.nrows) m.entry
    cases hzero : Scalar.isZero det with
    | true =>
      rw [← eq_tabulate_entry h rfl hsquare.symm] at hdet
      refine .of_error ?_ (outcome_inverse_of_isZero hdet hzero)
      rintro ⟨det', hdet', hnonzero⟩
      obtain rfl := Except.ok.inj (hdet.symm.trans hdet')
      rw [hzero] at hnonzero
      cases hnonzero
    | false =>
      obtain ⟨g, hg⟩ := exists_inverse_of_nonzero hdet hzero
      rw [← eq_tabulate_entry h rfl hsquare.symm] at hdet hg
      rw [← hsquare]
      exact .of_tabulate ⟨det, hdet, hzero⟩ hg

end LinearSystems.DenseMatrix
