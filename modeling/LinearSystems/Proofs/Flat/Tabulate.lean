import LinearSystems.Proofs.DenseVector.Tabulate
import LinearSystems.Flat.Basic

/-!
# Flats as tabulated families

`Flat.tabulate k d directions offset` has `k` directions in a space of dimension `d`, given by
their entries. A well-formed flat is of this form (`exists_tabulate`). `WellFormed` is what the
construction of a flat checks (`wellFormed_of_eq_ok`, `wellFormed_ofDirections`): the directions
have the dimension of the offset, and none of them is zero.
-/

namespace LinearSystems.Flat

variable {K : Type} {k d : ℕ}

/-- The flat with the given entries of its directions and of its offset. -/
def tabulate (k d : ℕ) (directions : ℕ → ℕ → K) (offset : ℕ → K) : Flat K :=
  ⟨⟨(List.range k).map fun a => DenseVector.tabulate d (directions a)⟩,
    DenseVector.tabulate d offset⟩

@[simp]
theorem size_span_tabulate (directions : ℕ → ℕ → K) (offset : ℕ → K) :
    (tabulate k d directions offset).span.size = k := by
  simp [tabulate, SpanningSet.size]

@[simp]
theorem ambientDim_tabulate (directions : ℕ → ℕ → K) (offset : ℕ → K) :
    (tabulate k d directions offset).ambientDim = d :=
  DenseVector.dim_tabulate offset

variable [Scalar K]

/-- The directions have the dimension of the offset and are not zero. -/
def WellFormed (f : Flat K) : Prop :=
  ∀ v ∈ f.span.directions, v.dim = f.ambientDim ∧ v.isZero = false

instance (f : Flat K) : Decidable f.WellFormed :=
  inferInstanceAs (Decidable (∀ v ∈ f.span.directions, _))

theorem WellFormed.dim_eq {f : Flat K} (h : f.WellFormed) :
    ∀ v ∈ f.span.directions, v.dim = f.ambientDim :=
  fun v hv => (h v hv).1

/-- **What is checked at the construction of a flat makes it well-formed**, if it is given the
span of directions that are not zero. -/
theorem wellFormed_of_eq_ok {span : SpanningSet K} {offset : DenseVector K} {f : Flat K}
    (hspan : ∀ v ∈ span.directions, v.isZero = false) (hf : Flat.of span offset = .ok f) :
    f.WellFormed := by
  rw [Flat.of] at hf
  split at hf
  · cases hf
  · next hnone =>
    cases hf
    intro v hv
    have hdim : v.dim = offset.dim := by simpa using List.find?_eq_none.1 hnone v hv
    exact ⟨hdim, hspan v hv⟩

/-- Directions of the right dimension need no check: those that are zero are dropped. -/
theorem wellFormed_ofDirections {directions : List (DenseVector K)} {offset : DenseVector K}
    (h : ∀ v ∈ directions, v.dim = offset.dim) :
    (⟨SpanningSet.ofDirections directions, offset⟩ : Flat K).WellFormed := fun v hv =>
  ⟨h v (List.mem_filter.1 hv).1, SpanningSet.isZero_of_mem_ofDirections hv⟩

/-- The point for some parameters. -/
def HasPoint (f : Flat K) (x : DenseVector K) : Prop :=
  ∃ params, f.pointAt params = .ok x

/-- **A flat whose directions have the dimension of the offset is a tabulation.** -/
theorem exists_tabulate {f : Flat K} (h : ∀ v ∈ f.span.directions, v.dim = f.ambientDim) :
    ∃ directions offset, f = tabulate f.span.size f.ambientDim directions offset := by
  obtain ⟨directions, hdirections⟩ := DenseVector.exists_eq_map_tabulate h
  refine ⟨directions, f.offset.entry, ?_⟩
  rw [tabulate, SpanningSet.size, ambientDim, DenseVector.tabulate_entry]
  exact congrArg (fun vectors => mk ⟨vectors⟩ f.offset) hdirections

/-- A tabulation is well-formed if none of its directions is zero. -/
theorem wellFormed_tabulate {directions : ℕ → ℕ → K} {offset : ℕ → K}
    (h : ∀ a < k, (DenseVector.tabulate d (directions a)).isZero = false) :
    (tabulate k d directions offset).WellFormed := by
  intro v hv
  obtain ⟨a, ha, rfl⟩ := List.mem_map.1 hv
  exact ⟨by rw [DenseVector.dim_tabulate, ambientDim_tabulate], h a (List.mem_range.1 ha)⟩

/-- No direction of a well-formed tabulation is zero. -/
theorem WellFormed.isZero_direction {directions : ℕ → ℕ → K} {offset : ℕ → K}
    (h : (tabulate k d directions offset).WellFormed) {a : ℕ} (ha : a < k) :
    (DenseVector.tabulate d (directions a)).isZero = false :=
  (h _ (List.mem_map.2 ⟨a, List.mem_range.2 ha, rfl⟩)).2

end LinearSystems.Flat
