import LinearSystems.Proofs.Flat.Operations
import LinearSystems.Proofs.Rational.Combinations

/-!
# Linear independence of rational vectors

`DenseVector.areIndependent` drops the zero vectors, gives up if there were any, and counts the
pivots of the matrix whose rows are the rest. Over the rationals this decides linear independence
(`outcome_areIndependent_tabulate`): a family with a zero vector is dependent, and otherwise the
number of pivots is the rank. So the answer is about the coefficients
(`areIndependent_iff_linearlyIndependent`).

No vectors at all are independent. They are no rows of a matrix, so the program answers without one.
-/

namespace LinearSystems

open Matrix

variable {n d : ℕ}

/-- The directions of a spanning set as the rows of a matrix. -/
theorem SpanningSet.rowMatrix?_tabulate (hn : 0 < n) (x : Grid ℚ) :
    rowMatrix? ⟨(List.range n).map fun i => DenseVector.tabulate d (x i)⟩
      = some (DenseMatrix.tabulate n d x) := by
  have hrows := DenseMatrix.ofRows_tabulate (d := d) hn x
  obtain ⟨n, rfl⟩ := Nat.exists_eq_succ_of_ne_zero hn.ne'
  rw [List.range_succ_eq_map, List.map_cons] at hrows ⊢
  rw [rowMatrix?]
  dsimp only
  rw [hrows]
  rfl

/-- **The dimension of a span is the rank of its directions.** -/
theorem SpanningSet.outcome_dimension_tabulate (x : Grid ℚ) :
    (dimension ⟨(List.range n).map fun i => DenseVector.tabulate d (x i)⟩).outcome
      = .ok (x.corner n d).rank := by
  rcases Nat.eq_zero_or_pos n with rfl | hn
  · -- no directions, and a matrix without rows
    rw [Nat.le_zero.1 (rank_le_height (x.corner 0 d))]
    rfl
  · rw [dimension, rowMatrix?_tabulate hn, DenseMatrix.rank_tabulate, Sweep.rank_after]

/-- The rows of a grid are linearly independent exactly if no multiples of them but those by zero
add up to zero. -/
theorem Grid.linearIndependent_row_iff_forall {x : Grid ℚ} :
    LinearIndependent ℚ (x.corner n d).row ↔
      ∀ w : ℕ → ℚ, (∀ i < d, ∑ a ∈ Finset.range n, w a * x a i = 0) → ∀ a < n, w a = 0 := by
  -- a sum of multiples of the rows, column by column
  have hsum : ∀ w : ℕ → ℚ, ∑ a : Fin n, w a • (x.corner n d).row a = 0 ↔
      ∀ i < d, ∑ a ∈ Finset.range n, w a * x a i = 0 := by
    intro w
    simp only [funext_iff, Finset.sum_apply, Finset.sum_range, Fin.forall_iff]
    rfl
  rw [Fintype.linearIndependent_iff]
  constructor
  · intro h w hw a ha
    exact h (fun a => w a) ((hsum w).2 hw) ⟨a, ha⟩
  · intro h z hz a
    obtain ⟨w, hw⟩ := Rational.exists_sequence z
    simp only [← hw] at hz ⊢
    exact h w ((hsum w).1 hz) a a.isLt

/-- No row of a linearly independent family is zero. -/
theorem DenseVector.isZero_of_linearIndependent {x : Grid ℚ}
    (h : LinearIndependent ℚ (x.corner n d).row) {i : ℕ} (hi : i < n) :
    (tabulate d (x i)).isZero = false := by
  rw [← Bool.not_eq_true, isZero_tabulate]
  intro hzero
  have hrow : (x.corner n d).row ⟨i, hi⟩ = 0 := by
    funext j
    exact Rational.isZero_iff.1 (hzero j j.isLt)
  exact h.ne_zero _ hrow

/-- **The test for linear independence is right**, for any number of vectors of one dimension. -/
theorem DenseVector.outcome_areIndependent_tabulate (x : Grid ℚ) :
    ∃ b, (areIndependent ((List.range n).map fun i => tabulate d (x i))).outcome = .ok b ∧
      (b = true ↔ LinearIndependent ℚ (x.corner n d).row) := by
  set vectors := (List.range n).map fun i => tabulate d (x i) with hvectors
  have hspan : SpanningSet.of vectors = .ok (.ofDirections vectors) :=
    SpanningSet.of_eq_ok (dim_of_mem_map_tabulate _ _)
  have hlength : vectors.length = n := by rw [hvectors, List.length_map, List.length_range]
  rw [areIndependent, Traced.outcome_bind, Traced.outcome_lift, hspan, ok_bind]
  by_cases hkept : ∀ v ∈ vectors, v.isZero = false
  · rw [if_pos (SpanningSet.size_ofDirections_eq_iff.2 hkept), SpanningSet.ofDirections_eq hkept,
      hvectors, Traced.outcome_bind, SpanningSet.outcome_dimension_tabulate, ok_bind, ← hvectors,
      hlength, Traced.outcome_pure]
    exact ⟨_, rfl, by rw [beq_iff_eq, linearIndependent_row_iff]⟩
  · rw [if_neg (mt SpanningSet.size_ofDirections_eq_iff.1 hkept)]
    refine ⟨false, rfl, iff_of_false Bool.false_ne_true fun hindependent => hkept fun v hv => ?_⟩
    obtain ⟨i, hi, rfl⟩ := List.mem_map.1 hv
    exact isZero_of_linearIndependent hindependent (List.mem_range.1 hi)

namespace DenseVector

variable {vectors : List (DenseVector ℚ)}

/-- **The test for linear independence is right** for vectors of one dimension. -/
theorem exists_areIndependent (h : ∀ w ∈ vectors, w.dim = d) :
    ∃ b, (areIndependent vectors).outcome = .ok b ∧ (b = true ↔ LinearlyIndependent vectors) := by
  rw [linearlyIndependent_iff_finrank_span h]
  obtain ⟨x, hx⟩ := exists_eq_map_tabulate h
  generalize vectors.length = n at hx ⊢
  obtain ⟨b, hb, hiff⟩ := outcome_areIndependent_tabulate (n := n) (d := d) x
  rw [hx, span_map_tabulate]
  refine ⟨b, hb, ?_⟩
  rw [hiff, linearIndependent_row_iff, Grid.finrank_rowSpace]

/-- **Linear independence is decided by coefficients.** Vectors of which two differ in dimension
are refused. For all others, be they zero, repeated, without entries, or more than their dimension,
there is an answer: whether no multiples of them but those by zero add up to zero. -/
theorem areIndependent_iff_linearlyIndependent (vectors : List (DenseVector ℚ)) :
    ((∃ v ∈ vectors, ∃ w ∈ vectors, v.dim ≠ w.dim) →
      ∃ first found, vectors.head? = some first ∧
        vectors.find? (fun v => v.dim != first.dim) = some found ∧
        (areIndependent vectors).outcome
          = .error (.shape (.dimensionMismatch (first.dim, 1) (found.dim, 1)))) ∧
    ((∀ v ∈ vectors, ∀ w ∈ vectors, v.dim = w.dim) →
      ∃ b, (areIndependent vectors).outcome = .ok b ∧
        (b = true ↔ LinearlyIndependent vectors)) := by
  constructor
  · intro hdiffer
    obtain ⟨first, found, hfirst, hfound, herror⟩ := SpanningSet.exists_of_eq_error hdiffer
    refine ⟨first, found, hfirst, hfound, ?_⟩
    rw [areIndependent, Traced.outcome_bind, Traced.outcome_lift, herror]
    rfl
  · intro hagree
    cases vectors with
    | nil => exact exists_areIndependent (d := 0) nofun
    | cons first rest =>
      exact exists_areIndependent fun w hw => hagree w hw first List.mem_cons_self

/-- A vector and its double are dependent, and vectors of different dimensions are refused. -/
theorem areIndependent_of_double :
    ¬LinearlyIndependent [⟨[1, 2]⟩, ⟨[2, 4]⟩] ∧
      (areIndependent [(⟨[1, 2]⟩ : DenseVector ℚ), ⟨[1]⟩]).outcome
        = .error (.shape (.dimensionMismatch (2, 1) (1, 1))) := by
  obtain ⟨b, hb, hiff⟩ :=
    (areIndependent_iff_linearlyIndependent [⟨[1, 2]⟩, ⟨[2, 4]⟩]).2 (by decide)
  obtain rfl : b = false := Except.ok.inj (hb.symm.trans (by decide +kernel))
  obtain ⟨first, found, hfirst, hfound, herror⟩ :=
    (areIndependent_iff_linearlyIndependent [⟨[1, 2]⟩, ⟨[1]⟩]).1 (by decide)
  obtain rfl : first = ⟨[1, 2]⟩ := (Option.some.inj hfirst).symm
  obtain rfl : found = ⟨[1]⟩ := Option.some.inj (hfound.symm.trans (by decide))
  exact ⟨mt hiff.2 Bool.false_ne_true, herror⟩

end DenseVector

end LinearSystems
