import LinearSystems.Proofs.Rational.Flats
import LinearSystems.Proofs.Rational.Rank

/-!
# Linear combinations of rational vectors

`DenseVector.IsCombination` and `DenseVector.LinearlyIndependent` are the definitions by
coefficients, for the vectors of a list. A vector may stand in the list several times, and each
occurrence has a coefficient of its own.

A vector is a combination of others exactly if its coordinates lie in their span
(`isCombination_iff_mem_span`), and vectors are independent exactly if the dimension of their span
is their number (`linearlyIndependent_iff_finrank_span`). Vectors of one dimension are the rows of a
grid, and then the span is the row space (`span_map_tabulate`).
-/

namespace LinearSystems.DenseVector

open Flat (coordinates coordinates_tabulate)

variable {n d : ℕ} {vectors : List (DenseVector ℚ)} {v : DenseVector ℚ}

/-- Every entry is the sum of the entries of the vectors at its position, each multiplied by the
coefficient of its vector. -/
def IsCombination (v : DenseVector ℚ) (vectors : List (DenseVector ℚ)) : Prop :=
  ∃ x : Fin vectors.length → ℚ, ∀ i, v.entry i = ∑ a, x a * (vectors.get a).entry i

/-- No multiples of the vectors add up to zero but those by zero. -/
def LinearlyIndependent (vectors : List (DenseVector ℚ)) : Prop :=
  ∀ x : Fin vectors.length → ℚ, (∀ i, ∑ a, x a * (vectors.get a).entry i = 0) → ∀ a, x a = 0

/-! ### Definitions by coefficients -/

/-- A sum of multiples, by coordinates and by entries. -/
theorem sum_smul_coordinates_eq_iff (h : ∀ w ∈ vectors, w.dim = d) (hv : v.dim = d)
    (x : Fin vectors.length → ℚ) :
    ∑ a, x a • coordinates d (vectors.get a) = coordinates d v ↔
      ∀ i, v.entry i = ∑ a, x a * (vectors.get a).entry i := by
  have hsum : ∀ i : Fin d, (∑ a, x a • coordinates d (vectors.get a)) i
      = ∑ a, x a * (vectors.get a).entry i := fun i => Finset.sum_apply _ _ _
  constructor
  · intro heq i
    rcases Nat.lt_or_ge i d with hi | hi
    · rw [← hsum ⟨i, hi⟩, heq]
      rfl
    · -- behind the common dimension all entries are zero
      have hzero : ∀ a, x a * (vectors.get a).entry i = 0 := fun a => by
        rw [entry_of_dim_le ((h _ (List.get_mem vectors a)).trans_le hi), Rational.zero_eq,
          mul_zero]
      rw [entry_of_dim_le (hv.trans_le hi), Finset.sum_eq_zero fun a _ => hzero a,
        Rational.zero_eq]
  · intro hentry
    funext i
    rw [hsum, ← hentry]
    rfl

theorem span_eq_span_range (d : ℕ) (vectors : List (DenseVector ℚ)) :
    span d vectors
      = Submodule.span ℚ
          (Set.range fun a : Fin vectors.length => coordinates d (vectors.get a)) := by
  rw [span, ← Set.range_list_get, ← Set.range_comp]
  rfl

/-- **The combinations of vectors are the vectors of their span.** -/
theorem isCombination_iff_mem_span (h : ∀ w ∈ vectors, w.dim = d) (hv : v.dim = d) :
    v.IsCombination vectors ↔ coordinates d v ∈ span d vectors := by
  rw [span_eq_span_range, Submodule.mem_span_range_iff_exists_fun]
  exact exists_congr fun x => (sum_smul_coordinates_eq_iff h hv x).symm

theorem linearlyIndependent_iff_linearIndependent (h : ∀ w ∈ vectors, w.dim = d) :
    LinearlyIndependent vectors ↔
      LinearIndependent ℚ fun a : Fin vectors.length => coordinates d (vectors.get a) := by
  rw [Fintype.linearIndependent_iff]
  refine forall_congr' fun x => imp_congr_left ?_
  rw [← Flat.coordinates_zero, sum_smul_coordinates_eq_iff h (dim_zero d)]
  exact forall_congr' fun i => by rw [entry_zero, Rational.zero_eq, eq_comm]

/-- **Vectors are independent exactly if their span has as many dimensions as they are.** -/
theorem linearlyIndependent_iff_finrank_span (h : ∀ w ∈ vectors, w.dim = d) :
    LinearlyIndependent vectors ↔ Module.finrank ℚ (span d vectors) = vectors.length := by
  rw [linearlyIndependent_iff_linearIndependent h, linearIndependent_iff_card_eq_finrank_span,
    Fintype.card_fin, Set.finrank, ← span_eq_span_range, eq_comm]

/-- The span of the rows of a grid is the row space. -/
theorem span_map_tabulate (x : Grid ℚ) :
    span d ((List.range n).map fun a => tabulate d (x a)) = x.rowSpace n d :=
  span_map_tabulate_eq_range x

end LinearSystems.DenseVector
