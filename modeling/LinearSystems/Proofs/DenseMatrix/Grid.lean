import LinearSystems.Proofs.Outcome
import Mathlib.Data.List.Basic
import Mathlib.Tactic.SplitIfs

/-!
# Matrices as tabulated grids

A `Grid` holds a scalar at every row and column, without bounds. A well-formed matrix is the
tabulation of a grid within its shape (`tabulate_entry`), so whatever a program does to a matrix
can be said of grids: the result of an operation on `tabulate r c f` is `tabulate r c g`, where `g`
is written down. Two tabulations within the same shape agree if their grids agree within it
(`tabulate_congr`); what a grid holds outside of the shape does not matter.

Shapes and well-formedness are thereby part of every equation and never a side condition of its
own. The one thing that a grid does not show is the storage; `toList_tabulate` gives it, row by
row, for the operations that cut and filter the storage itself.

Two matrices count as the same if their shapes agree and their entries count as the same, place by
place (`equal_tabulate`). When two entries do so is up to the scalars: floating-point numbers merge
all NaNs, and the two zeros. Three facts about the comparison of scalars are named here, and each is
asked for where it is needed. Every element counts as the same as itself (`ReflexiveEquality`): no
type of entries is meant to be without this. Elements that count as zero count as the same
(`ZerosAreEqual`). The tests for zero and for one do not tell apart what counts as the same
(`EqualityRespectsTests`).
-/

namespace LinearSystems

/-- A scalar at every row and column. -/
abbrev Grid (K : Type) : Type := ℕ → ℕ → K

namespace DenseMatrix

variable {K : Type} {r c : ℕ}

@[simp]
theorem nrows_tabulate (f : Grid K) : (tabulate r c f).nrows = r := rfl

@[simp]
theorem ncols_tabulate (f : Grid K) : (tabulate r c f).ncols = c := rfl

/-- What a grid holds outside of the shape does not matter. -/
theorem tabulate_congr {f g : Grid K} (h : ∀ i < r, ∀ j < c, f i j = g i j) :
    tabulate r c f = tabulate r c g := by
  simp only [tabulate, mk.injEq, true_and]
  congr 1
  funext p
  have hc : 0 < c := Nat.pos_of_mul_pos_left (Nat.zero_lt_of_lt p.isLt)
  exact h _ ((Nat.div_lt_iff_lt_mul hc).2 p.isLt) _ (Nat.mod_lt _ hc)

/-- The row of a place in the storage. -/
theorem place_div {i j : ℕ} (hj : j < c) : (i * c + j) / c = i := by
  rw [Nat.mul_comm, Nat.mul_add_div (Nat.zero_lt_of_lt hj), Nat.div_eq_of_lt hj, Nat.add_zero]

/-- Different positions of a shape are stored at different places. -/
theorem linearPosition_inj {m : DenseMatrix K} {i j a b : ℕ} (hj : j < m.ncols) (hb : b < m.ncols)
    (h : m.linearPosition i j = m.linearPosition a b) : i = a ∧ j = b := by
  simp only [linearPosition] at h
  have hrow : i = a := by
    rw [← place_div (i := i) hj, h, place_div hb]
  subst hrow
  exact ⟨rfl, Nat.add_left_cancel h⟩

section Entries

variable [Scalar K]

/-- The grid of a matrix. Positions behind the storage hold zero. -/
def entry (m : DenseMatrix K) : Grid K := fun row col =>
  m.entries.getD (m.linearPosition row col) Scalar.zero

/-- Within the shape, the grid holds what is read there. -/
theorem get_eq_entry {m : DenseMatrix K} (h : m.WellFormed) {row col : ℕ} (hrow : row < m.nrows)
    (hcol : col < m.ncols) : m.get row col = .ok (m.entry row col) := by
  have hpos := linearPosition_lt h hrow hcol
  rw [get_eq_ok_iff, entry, Array.getElem?_eq_getElem hpos, Array.getD_eq_getD_getElem?,
    Array.getElem?_eq_getElem hpos, Option.getD_some]

/-- The grid of a tabulation is the grid that was tabulated. -/
theorem entry_tabulate (f : Grid K) {row col : ℕ} (hrow : row < r) (hcol : col < c) :
    (tabulate r c f).entry row col = f row col := by
  have h := get_eq_entry (tabulate_wellFormed r c f) hrow hcol
  rw [get_tabulate f hrow hcol] at h
  exact (Except.ok.inj h).symm

/-- **A well-formed matrix is the tabulation of its grid.** -/
theorem tabulate_entry {m : DenseMatrix K} (h : m.WellFormed) :
    tabulate m.nrows m.ncols m.entry = m := by
  obtain ⟨r, c, entries⟩ := m
  simp only [WellFormed] at h
  simp only [tabulate, mk.injEq, true_and]
  refine Array.ext (by simp [h]) fun p hp hp' => ?_
  have hpos : p / c * c + p % c = p := Nat.div_add_mod' p c
  simp only [Array.getElem_ofFn, entry, linearPosition, hpos]
  rw [Array.getD_eq_getD_getElem?, Array.getElem?_eq_getElem hp', Option.getD_some]

theorem eq_tabulate_entry {m : DenseMatrix K} (h : m.WellFormed) (hrows : m.nrows = r)
    (hcols : m.ncols = c) : m = tabulate r c m.entry := by
  rw [← hrows, ← hcols, tabulate_entry h]

/-- Two tabulations within the same shape are equal exactly if the grids agree within it. -/
theorem tabulate_inj {f g : Grid K} :
    tabulate r c f = tabulate r c g ↔ ∀ i < r, ∀ j < c, f i j = g i j := by
  refine ⟨fun h i hi j hj => ?_, tabulate_congr⟩
  rw [← entry_tabulate f hi hj, h, entry_tabulate g hi hj]

/-- Writing an entry within the shape changes the grid there and nowhere else. -/
theorem set_tabulate (f : Grid K) {i j : ℕ} (hi : i < r) (hj : j < c) (e : K) :
    (tabulate r c f).set i j e
      = .ok (tabulate r c fun a b => if a = i ∧ b = j then e else f a b) := by
  have hpos := linearPosition_lt (tabulate_wellFormed r c f) hi hj
  obtain ⟨m, hm⟩ : ∃ m, (tabulate r c f).set i j e = .ok m := by
    rw [set, dif_pos hpos]
    exact ⟨_, rfl⟩
  -- the result keeps the shape, so it is the tabulation of its own grid
  have hwf := set_wellFormed (tabulate_wellFormed r c f) hm
  obtain ⟨hrows, hcols, -⟩ := set_eq_ok hm
  rw [hm, ← tabulate_entry hwf, hrows, hcols, nrows_tabulate, ncols_tabulate]
  refine congrArg Except.ok (tabulate_congr fun a ha b hb => ?_)
  have hread : m.get a b = .ok (m.entry a b) :=
    get_eq_entry hwf (by rw [hrows]; exact ha) (by rw [hcols]; exact hb)
  split_ifs with hab
  · obtain ⟨rfl, rfl⟩ := hab
    rw [get_set_self hm] at hread
    exact (Except.ok.inj hread).symm
  · -- another position within the shape is stored at another place
    have hne : (tabulate r c f).linearPosition i j ≠ (tabulate r c f).linearPosition a b :=
      fun h => hab ((linearPosition_inj hj hb h).imp Eq.symm Eq.symm)
    rw [get_set_of_ne hm hne, get_tabulate f ha hb] at hread
    exact (Except.ok.inj hread).symm

end Entries

/-! ### The storage, row by row -/

/-- The places of a storage are those of its rows, one row after the other. -/
theorem range_mul_eq_flatMap (r c : ℕ) :
    List.range (r * c) = (List.range r).flatMap fun i => (List.range c).map (i * c + ·) := by
  induction r with
  | zero => simp
  | succ r ih => rw [Nat.succ_mul, List.range_add, ih, List.range_succ, List.flatMap_append,
      List.flatMap_singleton]

/-- A list over all places, by rows and columns. -/
theorem map_places {α : Type} (x : ℕ → ℕ → ℕ → α) :
    (List.range (r * c)).map (fun p => x (p / c) (p % c) p)
      = (List.range r).flatMap fun i => (List.range c).map fun j => x i j (i * c + j) := by
  rw [range_mul_eq_flatMap, List.map_flatMap]
  refine List.flatMap_congr fun i _ => ?_
  rw [List.map_map]
  refine List.map_congr_left fun j hj => ?_
  have hjc : j < c := List.mem_range.1 hj
  rw [Function.comp_apply, place_div hjc, Nat.mul_add_mod_of_lt hjc]

/-- The storage of a tabulation: its rows, one after the other. -/
theorem toList_tabulate (f : Grid K) :
    (tabulate r c f).entries.toList = (List.range r).flatMap fun i => (List.range c).map (f i) := by
  have hlist : (tabulate r c f).entries.toList
      = (List.range (r * c)).map fun p => f (p / c) (p % c) := by
    refine List.ext_getElem (by simp [tabulate]) fun p _ _ => by simp [tabulate]
  rw [hlist]
  exact map_places fun i j _ => f i j

/-- A storage that consists of rows of one length is a tabulation. -/
theorem mk_flatMap_eq_tabulate (f : Grid K) :
    (⟨r, c, ((List.range r).flatMap fun i => (List.range c).map (f i)).toArray⟩ : DenseMatrix K)
      = tabulate r c f := by
  rw [← toList_tabulate, Array.toArray_toList]
  rfl

end DenseMatrix

/-! ### Equality -/

/-- Every element counts as the same as itself. -/
class ReflexiveEquality (K : Type) [Scalar K] : Prop where
  equal_self : ∀ a : K, Scalar.equal a a = true

/-- Elements that count as zero count as the same. -/
class ZerosAreEqual (K : Type) [Scalar K] : Prop where
  equal_of_isZero : ∀ {a b : K}, Scalar.isZero a = true → Scalar.isZero b = true →
    Scalar.equal a b = true

/-- Of two elements that count as the same, both or neither count as zero, and both or neither
count as one. -/
class EqualityRespectsTests (K : Type) [Scalar K] : Prop where
  isZero_congr : ∀ {a b : K}, Scalar.equal a b = true → Scalar.isZero a = Scalar.isZero b
  isOne_congr : ∀ {a b : K}, Scalar.equal a b = true → Scalar.isOne a = Scalar.isOne b

export ReflexiveEquality (equal_self)
export ZerosAreEqual (equal_of_isZero)
export EqualityRespectsTests (isZero_congr isOne_congr)

namespace DenseMatrix

variable {K : Type} {r c : ℕ}

/-- The entries of two tabulations, in pairs. -/
theorem zip_tabulate (f g : Grid K) :
    ((tabulate r c f).entries.zip (tabulate r c g).entries).toList
      = (List.range r).flatMap fun i => (List.range c).map fun j => (f i j, g i j) := by
  have hlist : ((tabulate r c f).entries.zip (tabulate r c g).entries).toList
      = (List.range (r * c)).map fun p => (f (p / c) (p % c), g (p / c) (p % c)) :=
    List.ext_getElem (by simp [tabulate]) fun p _ _ => by simp [tabulate]
  rw [hlist]
  exact map_places fun i j _ => (f i j, g i j)

/-- **Matrices of one shape count as the same** exactly if their entries do. -/
theorem equal_tabulate [Scalar K] {f g : Grid K} :
    (tabulate r c f).equal (tabulate r c g) = true ↔
      ∀ i < r, ∀ j < c, Scalar.equal (f i j) (g i j) = true := by
  have hsize : (tabulate r c f).entries.size = (tabulate r c g).entries.size := by simp [tabulate]
  rw [equal, ← Array.all_toList, zip_tabulate]
  simp [hsize, List.all_flatMap, List.all_map, List.all_eq_true]

end DenseMatrix

end LinearSystems
