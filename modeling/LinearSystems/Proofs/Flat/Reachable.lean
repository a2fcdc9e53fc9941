import LinearSystems.Proofs.Flat.Operations
import LinearSystems.Proofs.LinearSystem.Consistency
import LinearSystems.Flat.Intersection

/-!
# Reachable flats

`Flat.Reachable` is the least set of flats that is closed under everything that makes a flat: the
checked construction from a spanning set and an offset, the points and lines, differences, solutions
of linear systems, and intersections. `SpanningSet.Reachable` goes with it, for the spanning sets
that the checked construction is given. Several of these operations skip the checks.

* `Reachable.wellFormed`: all reachable flats are well-formed nonetheless.
* `intersection_of_reachable`: two reachable flats have an intersection exactly if they lie in one
  space. Otherwise the fault names both dimensions.

The scalars have no laws here. They may be floating-point numbers with NaNs and infinities among the
coordinates: it is only used that zero counts as zero, that one does not, and that a negation counts
as zero only if the negated element does.
-/

namespace LinearSystems

variable {K : Type} [Scalar K]

/-! ### Solutions of systems -/

namespace LinearSystem

open DenseMatrix

/-- A flat of linear forms lies in the space of the unknowns. -/
theorem ambientDim_flatOfForms (forms : List (LinearForm K)) :
    (flatOfForms forms).ambientDim = forms.length :=
  List.length_map ..

/-- **A flat of linear forms is well-formed**: each of its vectors has one entry for each form. -/
theorem wellFormed_flatOfForms (forms : List (LinearForm K)) : (flatOfForms forms).WellFormed := by
  refine Flat.wellFormed_ofDirections fun v hv => ?_
  obtain ⟨j, -, rfl⟩ := List.mem_map.1 hv
  simp [DenseVector.dim]

/-- A flat that is returned as a solution is well-formed, whatever the system: it is a flat of
linear forms. -/
theorem wellFormed_of_solution {e : LinearSystem K} {f : Flat K}
    (h : e.solution.outcome = .ok (.space f)) : f.WellFormed := by
  rw [solution, solutionVia, solutionWith, Traced.outcome_bind, Traced.outcome_report, ok_bind,
    Traced.outcome_bind_eq_ok] at h
  obtain ⟨reduced, -, h⟩ := h
  obtain ⟨⟨a, rest⟩, -, h⟩ := Traced.outcome_bind_eq_ok.1 h
  obtain ⟨verdict, -, h⟩ := Traced.outcome_bind_eq_ok.1 h
  cases verdict with
  | inconsistent row => simp at h
  | consistent rank =>
    dsimp only at h
    split_ifs at h with hpoint
    · simp only [Traced.outcome_bind, Traced.outcome_report, ok_bind] at h
      obtain ⟨p, -, h⟩ := bind_eq_ok.1 h
      simp at h
    · obtain ⟨forms, -, h⟩ := Traced.outcome_bind_eq_ok.1 h
      simp only [Traced.outcome_bind, Traced.outcome_report, ok_bind, Traced.outcome_pure,
        Except.ok.injEq, SolutionSet.space.injEq] at h
      rw [← h]
      exact wellFormed_flatOfForms forms

/-- **Systems always have an answer**, in the space of their unknowns. -/
theorem exists_solution_liesIn [ZeroCountsAsZero K] [OneIsNonzero K] (r c : ℕ) (f : Grid K) :
    ∃ s, (solution ⟨tabulate r (c + 1) f⟩).outcome = .ok s ∧ s.LiesIn c := by
  have hverdict := inspect_eq_ite_rank r c f
  split_ifs at hverdict with hrank
  · refine ⟨_, solutionVia_of_consistent _ hverdict, ?_⟩
    split_ifs with hpoint
    · exact DenseVector.dim_tabulate _
    · refine ⟨?_, wellFormed_flatOfForms _⟩
      rw [ambientDim_flatOfForms, List.length_map, List.length_range]
  · exact ⟨.empty, solutionVia_of_inconsistent _ hverdict, trivial⟩

end LinearSystem

/-- A flat of solutions of `a * x = b` is well-formed. -/
theorem DenseMatrix.wellFormed_of_solve {a : DenseMatrix K} {b : DenseVector K} {f : Flat K}
    (h : (a.solve b).outcome = .ok (.space f)) : f.WellFormed := by
  rw [solve, Traced.outcome_bind, Traced.outcome_report, ok_bind] at h
  obtain ⟨e, -, he⟩ := Traced.outcome_bind_eq_ok.1 h
  exact LinearSystem.wellFormed_of_solution he

/-! ### Reachable flats -/

mutual

/-- The spanning sets that can be made. -/
inductive SpanningSet.Reachable : SpanningSet K → Prop
  | zero : SpanningSet.Reachable .zero
  | of {directions : List (DenseVector K)} {span : SpanningSet K}
      (h : SpanningSet.of directions = .ok span) : SpanningSet.Reachable span
  | rowSpace {m : DenseMatrix K} {span : SpanningSet K} (h : m.rowSpace.outcome = .ok span) :
      SpanningSet.Reachable span
  | colSpace {m : DenseMatrix K} {span : SpanningSet K} (h : m.colSpace.outcome = .ok span) :
      SpanningSet.Reachable span
  | span {f : Flat K} (hf : Flat.Reachable f) : SpanningSet.Reachable f.span

/-- The flats that can be made. -/
inductive Flat.Reachable : Flat K → Prop
  | of {span : SpanningSet K} {offset : DenseVector K} {f : Flat K}
      (hspan : SpanningSet.Reachable span) (h : Flat.of span offset = .ok f) : Flat.Reachable f
  | point (p : DenseVector K) : Flat.Reachable (.point p)
  | line {p direction : DenseVector K} {f : Flat K} (h : Flat.line p direction = .ok f) :
      Flat.Reachable f
  | lineThrough {p q : DenseVector K} {f : Flat K} (h : Flat.lineThrough p q = .ok f) :
      Flat.Reachable f
  | lineFromGradient (gradient intercept : K) :
      Flat.Reachable (.lineFromGradient gradient intercept)
  | verticalLine (c : K) : Flat.Reachable (.verticalLine c)
  | horizontalLine (c : K) : Flat.Reachable (.horizontalLine c)
  | difference {f g d : Flat K} (hf : Flat.Reachable f) (hg : Flat.Reachable g)
      (h : f.difference g = .ok d) : Flat.Reachable d
  | solution {e : LinearSystem K} {f : Flat K} (h : e.solution.outcome = .ok (.space f)) :
      Flat.Reachable f
  | solve {a : DenseMatrix K} {b : DenseVector K} {f : Flat K}
      (h : (a.solve b).outcome = .ok (.space f)) : Flat.Reachable f
  | intersection {f g common : Flat K} (hf : Flat.Reachable f) (hg : Flat.Reachable g)
      (h : (f.intersection g).outcome = .ok (.space common)) : Flat.Reachable common

end

/-- The system of the difference of two flats has a solution in the space of the parameters of
both, and the intersection leads it back. -/
theorem Flat.exists_intersection [ZeroCountsAsZero K] [OneIsNonzero K] [NegationKeepsNonzero K]
    {f g : Flat K} (hf : f.WellFormed) (hg : g.WellFormed)
    (hdim : f.ambientDim = g.ambientDim) :
    ∃ d e s t, f.difference g = .ok d ∧ d.span.size = f.span.size + g.span.size ∧
      system ⟨d.span, d.offset.neg⟩ = .ok e ∧ e.solution.outcome = .ok s ∧
      s.LiesIn (f.span.size + g.span.size) ∧
      (f.intersection g).outcome = .ok t ∧ t.LiesIn f.ambientDim := by
  obtain ⟨d, hd, hsize, hwell⟩ := exists_difference hf hg hdim
  have hnegated : ∀ v ∈ d.span.directions, v.dim = d.offset.neg.dim := fun v hv => by
    rw [DenseVector.dim_neg]
    exact (hwell v hv).1
  obtain ⟨grid, he⟩ := exists_system (f := ⟨d.span, d.offset.neg⟩) hnegated
  obtain ⟨s, hs, hlies⟩ := LinearSystem.exists_solution_liesIn d.offset.neg.dim d.span.size grid
  rw [hsize] at hlies
  obtain ⟨t, ht, htlies⟩ := exists_leadBack hf hlies (Nat.le_add_right _ _)
  exact ⟨d, _, s, t, hd, hsize, he, hs, hlies, (outcome_intersection hd he hs).trans ht, htlies⟩

/-- A flat that is returned as an intersection of well-formed flats is well-formed. -/
theorem Flat.wellFormed_of_intersection [ZeroCountsAsZero K] [OneIsNonzero K]
    [NegationKeepsNonzero K] {f g common : Flat K} (hf : f.WellFormed) (hg : g.WellFormed)
    (h : (f.intersection g).outcome = .ok (.space common)) :
    common.WellFormed := by
  by_cases hdim : f.ambientDim = g.ambientDim
  · obtain ⟨-, -, -, t, -, -, -, -, -, ht, hlies⟩ := exists_intersection hf hg hdim
    obtain rfl := Except.ok.inj (h.symm.trans ht)
    exact hlies.2
  · rw [outcome_intersection_of_ne hdim] at h
    cases h

mutual

/-- **No direction of a reachable spanning set is zero.** -/
theorem SpanningSet.Reachable.isZero [ZeroCountsAsZero K] [OneIsNonzero K]
    [NegationKeepsNonzero K] {span : SpanningSet K} (h : span.Reachable) :
    ∀ v ∈ span.directions, v.isZero = false := by
  match h with
  | .zero => exact fun _ hv => absurd hv List.not_mem_nil
  | .of h => exact SpanningSet.isZero_of_eq_ok h
  | .rowSpace h => exact DenseMatrix.isZero_of_rowSpace h
  | .colSpace h => exact DenseMatrix.isZero_of_colSpace h
  | .span hf => exact fun v hv => (Flat.Reachable.wellFormed hf v hv).2

/-- **Reachable flats are well-formed**: their directions have the dimension of the offset, and
none of them is zero. -/
theorem Flat.Reachable.wellFormed [ZeroCountsAsZero K] [OneIsNonzero K] [NegationKeepsNonzero K]
    {f : Flat K} (h : f.Reachable) : f.WellFormed := by
  match h with
  | .of hspan h => exact Flat.wellFormed_of_eq_ok hspan.isZero h
  | .point p => exact Flat.wellFormed_point p
  | .line h => exact Flat.wellFormed_line h
  | .lineThrough h => exact Flat.wellFormed_lineThrough h
  | .lineFromGradient gradient intercept => exact Flat.wellFormed_along rfl
  | .verticalLine c => exact Flat.wellFormed_along rfl
  | .horizontalLine c => exact Flat.wellFormed_along rfl
  | .difference hf hg h => exact Flat.wellFormed_of_difference hf.wellFormed hg.wellFormed h
  | .solution h => exact LinearSystem.wellFormed_of_solution h
  | .solve h => exact DenseMatrix.wellFormed_of_solve h
  | .intersection hf hg h =>
    exact Flat.wellFormed_of_intersection hf.wellFormed hg.wellFormed h

end

/-! ### Intersections of reachable flats -/

namespace Flat

/-- **Reachable flats of one space have an intersection**, for scalars without laws. The directions
of a reachable flat are not zero and have the dimension of its offset, so they make up the columns
of a system. Two reachable flats of different spaces are refused. In one space, the difference keeps
all directions of both, its system has a solution, each vector of that solution has a coordinate for
each direction of the first flat, and the intersection succeeds. -/
theorem intersection_of_reachable [ZeroCountsAsZero K] [OneIsNonzero K] [NegationKeepsNonzero K]
    {f g : Flat K} (hf : f.Reachable) (hg : g.Reachable) :
    (∀ v ∈ f.span.directions, v.isZero = false ∧ v.dim = f.offset.dim) ∧
    (∃ e, f.system = .ok e) ∧
    (f.ambientDim ≠ g.ambientDim → (f.intersection g).outcome
      = .error (.shape (.dimensionMismatch (f.ambientDim, 1) (g.ambientDim, 1)))) ∧
    (f.ambientDim = g.ambientDim → ∃ d e s t,
      f.difference g = .ok d ∧ d.span.size = f.span.size + g.span.size ∧
      system ⟨d.span, d.offset.neg⟩ = .ok e ∧ e.solution.outcome = .ok s ∧
      (∀ p, s = .point p → f.span.size ≤ p.dim) ∧
      (∀ h, s = .space h →
        f.span.size ≤ h.offset.dim ∧ ∀ v ∈ h.span.directions, f.span.size ≤ v.dim) ∧
      (f.intersection g).outcome = .ok t) := by
  have hwell := hf.wellFormed
  obtain ⟨grid, hsystem⟩ := exists_system fun v hv => (hwell v hv).1
  refine ⟨fun v hv => (hwell v hv).symm, ⟨_, hsystem⟩, outcome_intersection_of_ne, fun hdim => ?_⟩
  obtain ⟨d, e, s, t, hd, hsize, he, hs, hlies, ht, -⟩ :=
    exists_intersection hwell hg.wellFormed hdim
  have hle : f.span.size ≤ f.span.size + g.span.size := Nat.le_add_right _ _
  refine ⟨d, e, s, t, hd, hsize, he, hs, ?_, ?_, ht⟩
  · rintro p rfl
    exact hle.trans_eq (Eq.symm hlies)
  · rintro h rfl
    obtain ⟨hambient, hdirections⟩ := hlies
    refine ⟨hle.trans_eq hambient.symm, fun v hv => hle.trans_eq ?_⟩
    rw [(hdirections v hv).1, hambient]

open Binary in
/-- Lines with NaNs and infinities among their coordinates intersect in something, but not with a
point of another space. -/
theorem intersection_of_nan_lines :
    (∃ t, ((horizontalLine nan : Flat (Binary binary64)).intersection
      (lineFromGradient (div one zero) nan)).outcome = .ok t) ∧
    ((horizontalLine nan : Flat (Binary binary64)).intersection
      (point ⟨[nan, nan, nan]⟩)).outcome = .error (.shape (.dimensionMismatch (2, 1) (3, 1))) := by
  obtain ⟨-, -, -, hsame⟩ := intersection_of_reachable
    (.horizontalLine (nan : Binary binary64)) (.lineFromGradient (div one zero) nan)
  obtain ⟨-, -, hdifferent, -⟩ := intersection_of_reachable
    (.horizontalLine (nan : Binary binary64)) (.point ⟨[nan, nan, nan]⟩)
  obtain ⟨-, -, -, t, -, -, -, -, -, -, ht⟩ := hsame rfl
  exact ⟨⟨t, ht⟩, hdifferent (by decide)⟩

end Flat

end LinearSystems
