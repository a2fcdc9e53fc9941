import LinearSystems.Proofs.Flat.Reachable
import LinearSystems.Proofs.Rational.Spans

/-!
# Membership and differences of rational flats

Whether a point lies on a flat is asked of the solver, for the difference of the point and the
offset; a point is made by adding multiples of the directions to the offset. Over the rationals both
are about the span of the directions, and so they match (`outcome_contains_eq_true_iff`).

The directions of a difference are those of the first flat and the negated ones of the second,
which span the sum of the two spans. Hence its points are the differences of their points
(`hasPoint_difference_iff`). The system that an intersection solves has the directions of the
difference as its columns and the negated offset as its constants. Its solutions are the parameters
for which the difference is zero (`exists_solution_system`).
-/

namespace LinearSystems.Flat

open DenseVector (span_append span_map_neg)

variable {f g e : Flat ℚ} {v x : DenseVector ℚ}

/-! ### Membership -/

/-- **A flat contains its points**, among the vectors of its space. -/
theorem exists_contains (hf : f.WellFormed) (hx : x.dim = f.ambientDim) :
    ∃ b, (f.contains x).outcome = .ok b ∧ (b = true ↔ f.HasPoint x) := by
  obtain ⟨u, hsub, hu⟩ := DenseVector.exists_sub hx
  obtain ⟨b, hb, hiff⟩ :=
    SpanningSet.exists_contains hf.dim_eq (fun w hw => (hf w hw).2) (hu.trans hx)
  refine ⟨b, ?_, ?_⟩
  · rw [contains, if_pos hx, hsub, Traced.outcome_bind, Traced.outcome_lift, ok_bind]
    exact hb
  · rw [hiff, coordinates_sub hx rfl hsub, hasPoint_iff_mem_span hf.dim_eq rfl]
    exact (and_iff_right hx).symm

/-- Vectors of another dimension are refused. -/
theorem outcome_contains_of_dim_ne (hx : x.dim ≠ f.ambientDim) :
    (f.contains x).outcome = .error (.columnMismatch f.ambientDim x.dim) := by
  rw [contains, if_neg hx]
  rfl

/-- A vector is reported as contained exactly if it is a point. -/
theorem outcome_contains_eq_true_iff (hf : f.WellFormed) :
    (f.contains x).outcome = .ok true ↔ f.HasPoint x := by
  by_cases hx : x.dim = f.ambientDim
  · obtain ⟨b, hb, hiff⟩ := exists_contains hf hx
    rw [hb, Except.ok.injEq, hiff]
  · rw [outcome_contains_of_dim_ne hx]
    exact iff_of_false nofun fun hpoint => hx ((hasPoint_iff_mem_span hf.dim_eq rfl).1 hpoint).1

/-! ### Differences -/

/-- **The points of a difference are the differences of points.** -/
theorem hasPoint_difference_iff (hf : f.WellFormed) (hg : g.WellFormed)
    (hdim : f.ambientDim = g.ambientDim) (he : f.difference g = .ok e) :
    e.HasPoint v ↔ ∃ p q, f.HasPoint p ∧ g.HasPoint q ∧ p.sub q = .ok v := by
  have hwell := wellFormed_of_difference hf hg he
  obtain ⟨offset, hoffset, hdifference⟩ := exists_difference_eq hf hg hdim
  obtain rfl := Except.ok.inj (he.symm.trans hdifference)
  generalize hd : f.ambientDim = d at hdim
  have hsum : DenseVector.span d (f.span.directions ++ g.span.directions.map DenseVector.neg)
      = DenseVector.span d f.span.directions ⊔ DenseVector.span d g.span.directions := by
    rw [span_append, span_map_neg fun w hw => (hg.dim_eq w hw).trans hdim.symm]
  simp only [hasPoint_iff_mem_span hwell.dim_eq ((ambientDim_difference he).trans hd),
    hasPoint_iff_mem_span hf.dim_eq hd, hasPoint_iff_mem_span hg.dim_eq hdim.symm, hsum,
    coordinates_sub hd hdim.symm hoffset]
  constructor
  · rintro ⟨hv, hmem⟩
    obtain ⟨y, hy, z, hz, hyz⟩ := Submodule.mem_sup.1 hmem
    -- each flat takes its own share
    obtain ⟨p, hp, hpy⟩ := exists_coordinates_eq (coordinates d f.offset + y)
    obtain ⟨q, hq, hqz⟩ := exists_coordinates_eq (coordinates d g.offset - z)
    obtain ⟨u, hsub, hu⟩ := DenseVector.exists_sub (hp.trans hq.symm)
    have huv : coordinates d u = coordinates d v := by
      rw [coordinates_sub hp hq hsub, hpy, hqz, sub_eq_iff_eq_add.1 hyz.symm]
      abel
    obtain rfl := eq_of_coordinates_eq (hu.trans hp) hv huv
    refine ⟨p, q, ⟨hp, ?_⟩, ⟨hq, ?_⟩, hsub⟩
    · rwa [hpy, add_sub_cancel_left]
    · rw [hqz, sub_sub_cancel_left]
      exact Submodule.neg_mem _ hz
  · rintro ⟨p, q, ⟨hp, hpmem⟩, ⟨hq, hqmem⟩, hsub⟩
    refine ⟨(DenseVector.dim_sub hsub).trans hp, ?_⟩
    rw [coordinates_sub hp hq hsub, sub_sub_sub_comm]
    exact Submodule.sub_mem _ (Submodule.mem_sup_left hpmem) (Submodule.mem_sup_right hqmem)

/-! ### Intersections -/

/-- **The system of an intersection asks for zero**: with the directions of a flat as its columns
and the negated offset as its constants, it is solvable exactly if zero is a point of the flat. -/
theorem exists_solution_system (hf : f.WellFormed) :
    ∃ equations s, system ⟨f.span, f.offset.neg⟩ = .ok equations ∧
      equations.solution.outcome = .ok s ∧
      (s ≠ .empty ↔ f.HasPoint (DenseVector.zero f.ambientDim)) := by
  obtain ⟨D, o, htabulate⟩ := exists_tabulate hf.dim_eq
  rw [htabulate, ambientDim_tabulate]
  generalize f.span.size = k, f.ambientDim = d
  obtain ⟨s, hs, hsolvable⟩ := LinearSystem.exists_solution_ne_empty_iff (r := d) (c := k)
    (fun i j => D j i) fun i => -o i
  refine ⟨_, s, ?_, hs, hsolvable.trans ?_⟩
  · rw [← system_tabulate, tabulate, tabulate, DenseVector.neg_tabulate]
    rfl
  · rw [hasPoint_tabulate_iff, DenseVector.zero_eq_tabulate]
    refine exists_congr fun t => ?_
    rw [pointOf, DenseVector.tabulate_inj]
    refine forall₂_congr fun i _ => ?_
    rw [eq_neg_iff_add_eq_zero, add_comm]
    exact eq_comm

/-- **Two flats meet exactly if zero is a difference of their points.** -/
theorem exists_intersection_ne_empty_iff (hf : f.WellFormed) (hg : g.WellFormed)
    (hdim : f.ambientDim = g.ambientDim) (he : f.difference g = .ok e) :
    ∃ s, (f.intersection g).outcome = .ok s ∧
      (s ≠ .empty ↔ e.HasPoint (DenseVector.zero e.ambientDim)) := by
  obtain ⟨equations, t, hequations, ht, hsolvable⟩ :=
    exists_solution_system (wellFormed_of_difference hf hg he)
  have hleadBack := outcome_intersection he hequations ht
  obtain ⟨-, -, -, s, -, -, -, -, -, hs, -⟩ := exists_intersection hf hg hdim
  refine ⟨s, hs, Iff.trans (not_congr ?_) hsolvable⟩
  exact leadBack_eq_empty_iff (hleadBack.symm.trans hs)

/-- **Membership, differences and intersections.** A flat contains a vector of its space exactly if
it is the point for some parameters. The difference of two flats of one space contains the vectors
of the form `p - q`, where the first flat contains `p` and the second one `q`, and no others. So the
flats have an intersection exactly if their difference contains zero. -/
theorem membership_and_difference {f : Flat ℚ} (hf : f.WellFormed) :
    (∀ x, x.dim = f.ambientDim → ∃ b, (f.contains x).outcome = .ok b ∧
      (b = true ↔ ∃ params, f.pointAt params = .ok x)) ∧
    ∀ g : Flat ℚ, g.WellFormed → f.ambientDim = g.ambientDim →
      ∃ e s, f.difference g = .ok e ∧
        (∀ v, v.dim = f.ambientDim → ∃ b, (e.contains v).outcome = .ok b) ∧
        (∀ v, (e.contains v).outcome = .ok true ↔ ∃ p q, (f.contains p).outcome = .ok true ∧
          (g.contains q).outcome = .ok true ∧ p.sub q = .ok v) ∧
        (f.intersection g).outcome = .ok s ∧
        (s ≠ .empty ↔ (e.contains (DenseVector.zero f.ambientDim)).outcome = .ok true) := by
  refine ⟨fun x hx => exists_contains hf hx, fun g hg hdim => ?_⟩
  obtain ⟨e, he, -, hwell⟩ := exists_difference hf hg hdim
  have hedim := ambientDim_difference he
  obtain ⟨s, hs, hmeet⟩ := exists_intersection_ne_empty_iff hf hg hdim he
  refine ⟨e, s, he, fun v hv => ?_, fun v => ?_, hs, ?_⟩
  · obtain ⟨b, hb, -⟩ := exists_contains hwell (hv.trans hedim.symm)
    exact ⟨b, hb⟩
  · simp only [outcome_contains_eq_true_iff hf, outcome_contains_eq_true_iff hg]
    rw [outcome_contains_eq_true_iff hwell, hasPoint_difference_iff hf hg hdim he]
  · rw [outcome_contains_eq_true_iff hwell, ← hedim, hmeet]

/-- The line `x = 1` of the plane has the point `(1, 5)`, and meets the diagonal. -/
theorem membership_and_difference_of_diagonal :
    (∃ params, (⟨⟨[⟨[0, 1]⟩]⟩, ⟨[1, 0]⟩⟩ : Flat ℚ).pointAt params = .ok ⟨[1, 5]⟩) ∧
      ∃ s, ((⟨⟨[⟨[0, 1]⟩]⟩, ⟨[1, 0]⟩⟩ : Flat ℚ).intersection
        ⟨⟨[⟨[1, 1]⟩]⟩, ⟨[0, 0]⟩⟩).outcome = .ok s ∧ s ≠ .empty := by
  obtain ⟨hpoint, hdifference⟩ := membership_and_difference
    (f := (⟨⟨[⟨[0, 1]⟩]⟩, ⟨[1, 0]⟩⟩ : Flat ℚ)) (by decide)
  obtain ⟨b, hb, hiff⟩ := hpoint ⟨[1, 5]⟩ rfl
  obtain rfl : b = true := Except.ok.inj (hb.symm.trans (by decide +kernel))
  obtain ⟨e, s, he, -, -, hs, hmeet⟩ := hdifference ⟨⟨[⟨[1, 1]⟩]⟩, ⟨[0, 0]⟩⟩ (by decide) rfl
  obtain rfl : e = ⟨⟨[⟨[0, 1]⟩, ⟨[-1, -1]⟩]⟩, ⟨[1, 0]⟩⟩ :=
    Except.ok.inj (he.symm.trans (by decide +kernel))
  exact ⟨hiff.1 rfl, s, hs, hmeet.2 (by decide +kernel)⟩

end LinearSystems.Flat
