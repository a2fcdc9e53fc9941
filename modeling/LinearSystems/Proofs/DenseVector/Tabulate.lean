import LinearSystems.Proofs.Outcome
import LinearSystems.DenseVector
import Mathlib.Data.List.Basic

/-!
# Vectors as tabulated sequences

`DenseVector.tabulate n x` holds the first `n` scalars of a sequence, and every vector is of this
form (`tabulate_entry`). As for matrices, an operation on tabulated vectors is the tabulation of
an operation on sequences, so that no statement needs a dimension as a side condition.
-/

namespace LinearSystems

/-- The negation of an element that does not count as zero does not count as zero either. -/
class NegationKeepsNonzero (K : Type) [Scalar K] : Prop where
  isZero_neg : ∀ a : K, Scalar.isZero a = false → Scalar.isZero (Scalar.neg a) = false

namespace DenseVector

variable {K : Type} {n : ℕ}

/-- The vector of the first `n` scalars of a sequence. -/
def tabulate (n : ℕ) (x : ℕ → K) : DenseVector K :=
  ⟨(List.range n).map x⟩

@[simp]
theorem dim_tabulate (x : ℕ → K) : (tabulate n x).dim = n := by
  simp [tabulate, dim]

/-- The members of a tabulated family have its dimension. -/
theorem dim_of_mem_map_tabulate {ι : Type} (x : ι → ℕ → K) (l : List ι) :
    ∀ v ∈ l.map fun a => tabulate n (x a), v.dim = n := by
  intro v hv
  obtain ⟨a, -, rfl⟩ := List.mem_map.1 hv
  exact dim_tabulate (x a)

theorem tabulate_congr {x y : ℕ → K} (h : ∀ i < n, x i = y i) : tabulate n x = tabulate n y :=
  congrArg mk (List.map_congr_left fun i hi => h i (List.mem_range.1 hi))

/-- Tabulations of one dimension are equal exactly if the sequences agree within it. -/
theorem tabulate_inj {x y : ℕ → K} : tabulate n x = tabulate n y ↔ ∀ i < n, x i = y i := by
  refine ⟨fun h i hi => ?_, tabulate_congr⟩
  exact List.map_inj_left.1 (congrArg entries h) i (List.mem_range.2 hi)

theorem get_tabulate (x : ℕ → K) {i : ℕ} (hi : i < n) : (tabulate n x).get i = .ok (x i) := by
  rw [get_eq_ok_iff]
  simp [tabulate, hi]

/-- The entries with their positions. -/
theorem zipIdx_tabulate (x : ℕ → K) :
    (tabulate n x).entries.zipIdx = (List.range n).map fun i => (x i, i) := by
  refine List.ext_getElem (by simp [tabulate]) fun i _ _ => ?_
  simp [tabulate]

/-- The first entries are those of the sequence. -/
theorem initial_tabulate (x : ℕ → K) {k : ℕ} (hk : k ≤ n) :
    (tabulate n x).initial k = .ok ((List.range k).map x) := by
  rw [initial, if_pos (by simpa using hk), tabulate, ← List.map_take, List.take_range,
    Nat.min_eq_left hk]

variable [Scalar K]

/-- The sequence of a vector. Positions behind its end hold zero. -/
def entry (v : DenseVector K) (i : ℕ) : K :=
  v.entries.getD i Scalar.zero

/-- **Every vector is the tabulation of its sequence.** -/
theorem tabulate_entry (v : DenseVector K) : tabulate v.dim v.entry = v := by
  obtain ⟨entries⟩ := v
  refine congrArg mk (List.ext_getElem (by simp [dim]) fun i hi hi' => ?_)
  simp [entry, List.getElem?_eq_getElem hi']

theorem eq_tabulate_entry {v : DenseVector K} (h : v.dim = n) : v = tabulate n v.entry := by
  rw [← h, tabulate_entry]

/-- The sequence of a tabulation is the sequence that was tabulated. -/
theorem entry_tabulate (x : ℕ → K) {i : ℕ} (hi : i < n) : (tabulate n x).entry i = x i := by
  simp [entry, tabulate, hi]

/-- A vector is a tabulation if its dimension and its entries are those. -/
theorem eq_tabulate_iff {v : DenseVector K} {x : ℕ → K} :
    v = tabulate n x ↔ v.dim = n ∧ ∀ i < n, v.entry i = x i := by
  constructor
  · rintro rfl
    exact ⟨dim_tabulate x, fun i hi => entry_tabulate x hi⟩
  · rintro ⟨rfl, h⟩
    rw [← tabulate_congr h, tabulate_entry]

/-- Behind the end of a vector, its sequence is zero. -/
theorem entry_of_dim_le {v : DenseVector K} {i : ℕ} (hi : v.dim ≤ i) : v.entry i = Scalar.zero := by
  rw [entry, List.getD_eq_getElem?_getD, List.getElem?_eq_none hi, Option.getD_none]

/-- **Vectors of one dimension are a tabulated family.** -/
theorem exists_eq_map_tabulate {vectors : List (DenseVector K)} (h : ∀ v ∈ vectors, v.dim = n) :
    ∃ x : ℕ → ℕ → K, vectors = (List.range vectors.length).map fun a => tabulate n (x a) := by
  refine ⟨fun a => (vectors.getD a ⟨[]⟩).entry, ?_⟩
  refine List.ext_getElem (by simp) fun a ha _ => ?_
  have hdim : vectors[a].dim = n := h vectors[a] (List.getElem_mem ha)
  rw [List.getElem_map, List.getElem_range]
  dsimp only
  rw [List.getD_eq_getElem?_getD, List.getElem?_eq_getElem ha, Option.getD_some,
    ← eq_tabulate_entry hdim]

theorem zero_eq_tabulate (n : ℕ) : (zero n : DenseVector K) = tabulate n fun _ => Scalar.zero := by
  simp [zero, tabulate]

theorem entry_zero (n i : ℕ) : (zero n : DenseVector K).entry i = Scalar.zero := by
  rcases Nat.lt_or_ge i n with hi | hi
  · rw [zero_eq_tabulate, entry_tabulate _ hi]
  · exact entry_of_dim_le (by rwa [dim_zero])

theorem scale_tabulate (x : ℕ → K) (e : K) :
    (tabulate n x).scale e = tabulate n fun i => Scalar.mul (x i) e := by
  simp [scale, tabulate]

theorem neg_tabulate (x : ℕ → K) : (tabulate n x).neg = tabulate n fun i => Scalar.neg (x i) := by
  simp [neg, tabulate]

theorem add_tabulate (x y : ℕ → K) :
    (tabulate n x).add (tabulate n y) = .ok (tabulate n fun i => Scalar.add (x i) (y i)) := by
  rw [add, if_pos (by simp)]
  simp [tabulate, List.zipWith_map]

theorem sub_tabulate (x y : ℕ → K) :
    (tabulate n x).sub (tabulate n y) = .ok (tabulate n fun i => Scalar.sub (x i) (y i)) := by
  rw [sub, if_pos (by simp)]
  simp [tabulate, List.zipWith_map]

/-- Vectors of one dimension have a sum. -/
theorem exists_add {v w : DenseVector K} (h : v.dim = w.dim) :
    ∃ s, v.add w = .ok s ∧ s.dim = v.dim :=
  ⟨_, if_pos h, dim_add (if_pos h)⟩

/-- Vectors of one dimension have a difference. -/
theorem exists_sub {v w : DenseVector K} (h : v.dim = w.dim) :
    ∃ s, v.sub w = .ok s ∧ s.dim = v.dim :=
  ⟨_, if_pos h, dim_sub (if_pos h)⟩

theorem isZero_tabulate (x : ℕ → K) :
    (tabulate n x).isZero = true ↔ ∀ i < n, Scalar.isZero (x i) = true := by
  simp [isZero, tabulate, List.all_eq_true]

/-- A vector that is not zero has an entry. -/
theorem dim_pos_of_isZero_eq_false {v : DenseVector K} (h : v.isZero = false) : 0 < v.dim := by
  rw [isZero, List.all_eq_false] at h
  obtain ⟨e, he, -⟩ := h
  exact List.length_pos_of_mem he

/-- The negation of a vector that is not zero is not zero. -/
theorem isZero_neg [NegationKeepsNonzero K] {v : DenseVector K} (h : v.isZero = false) :
    v.neg.isZero = false := by
  rw [isZero, List.all_eq_false] at h ⊢
  obtain ⟨e, he, hnonzero⟩ := h
  rw [Bool.not_eq_true] at hnonzero
  refine ⟨Scalar.neg e, List.mem_map_of_mem he, ?_⟩
  rw [NegationKeepsNonzero.isZero_neg e hnonzero]
  exact Bool.false_ne_true

end DenseVector

end LinearSystems
