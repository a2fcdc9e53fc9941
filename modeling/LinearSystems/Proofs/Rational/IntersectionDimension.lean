import LinearSystems.Proofs.Rational.Independence
import LinearSystems.Proofs.Rational.Intersection

/-!
# The dimension of an intersection

If two rational flats have linearly independent directions and a point in common, the dimension of
their intersection is the sum of their dimensions less that of the span of all directions. The
result is given by as many directions, which are linearly independent again, and as a point if
there would be none.

Directions are linearly independent exactly if different parameters lead to different points
(`independent_tabulate_iff`). This passes from the given flats to their intersection: the solutions
of the system of the difference are told apart by their free unknowns, by the parameters of the
first flat alone if the directions of the second are independent
(`eq_of_isSolution_difference`), and by the point to which these lead if those of the first are.
So no two parameters of the intersection lead to one point, and no direction of it vanishes.
-/

namespace LinearSystems.Flat

variable {k m d : ℕ} {D E : ℕ → ℕ → ℚ} {o q : ℕ → ℚ}

/-! ### Independent directions -/

/-- The directions are linearly independent. -/
def Independent (f : Flat ℚ) : Prop :=
  LinearIndependent ℚ fun a : Fin f.span.directions.length =>
    coordinates f.ambientDim (f.span.directions.get a)

theorem independent_tabulate_iff_row :
    (tabulate k d D o).Independent ↔ LinearIndependent ℚ (Grid.corner k d D).row := by
  have hlength : (tabulate k d D o).span.directions.length = k := size_span_tabulate D o
  have hfamily : (fun a : Fin (tabulate k d D o).span.directions.length =>
        coordinates d ((tabulate k d D o).span.directions.get a))
      = (Grid.corner k d D).row ∘ finCongr hlength := by
    funext a
    have hdirection : (tabulate k d D o).span.directions.get a
        = DenseVector.tabulate d (D a) := by
      rw [List.get_eq_getElem]
      refine (List.getElem_map _).trans ?_
      rw [List.getElem_range]
    rw [hdirection, coordinates_tabulate]
    rfl
  rw [Independent, ambientDim_tabulate, hfamily, linearIndependent_equiv]

/-- **Directions are independent exactly if different parameters lead to different points.** -/
theorem independent_tabulate_iff : (tabulate k d D o).Independent ↔
    ∀ t u, pointOf k d D o t = pointOf k d D o u → ∀ a < k, t a = u a := by
  rw [independent_tabulate_iff_row, Grid.linearIndependent_row_iff_forall]
  constructor
  · intro h t u heq a ha
    refine sub_eq_zero.1 (h (fun a => t a - u a) (fun i hi => ?_) a ha)
    have hi' := add_left_cancel (DenseVector.tabulate_inj.1 heq i hi)
    simp only [sub_mul, Finset.sum_sub_distrib, hi', sub_self]
  · intro h w hw
    refine h w (fun _ => 0) (DenseVector.tabulate_congr fun i hi => ?_)
    simp only [hw i hi, zero_mul, Finset.sum_const_zero]

/-- The program can test whether directions are independent. -/
theorem independent_iff_areIndependent {f : Flat ℚ}
    (h : ∀ v ∈ f.span.directions, v.dim = f.ambientDim) :
    f.Independent ↔ (DenseVector.areIndependent f.span.directions).outcome = .ok true := by
  obtain ⟨D, o, hf⟩ := exists_tabulate h
  rw [hf, independent_tabulate_iff_row]
  obtain ⟨b, hb, hiff⟩ :=
    DenseVector.outcome_areIndependent_tabulate (n := f.span.size) (d := f.ambientDim) D
  refine hiff.symm.trans ?_
  rw [tabulate, hb, Except.ok.injEq]

/-- A flat with independent directions is well-formed, since none of them is zero. -/
theorem Independent.wellFormed (h : (tabulate k d D o).Independent) :
    (tabulate k d D o).WellFormed :=
  wellFormed_tabulate fun _ ha =>
    DenseVector.isZero_of_linearIndependent (independent_tabulate_iff_row.1 h) ha

/-- The dimension of the span of independent directions is their number. -/
theorem Independent.outcome_dimension (h : (tabulate k d D o).Independent) :
    (tabulate k d D o).span.dimension.outcome = .ok k := by
  have hrank := (linearIndependent_row_iff _).1 (independent_tabulate_iff_row.1 h)
  exact (SpanningSet.outcome_dimension_tabulate D).trans (congrArg Except.ok hrank)

/-! ### The solutions of the system of a difference -/

/-- The system of a difference has the rank of the span of all directions. -/
theorem rank_after_differenceGrid :
    (Sweep.after d (differenceGrid k m D E o q) (k + m)).rank
      = (Grid.corner (k + m) d (join k D E)).rank := by
  rw [Sweep.rank_after, ← Matrix.rank_transpose]
  congr 1
  ext j i
  rw [Matrix.transpose_apply, Grid.corner_apply, Grid.corner_apply, differenceGrid, Grid.augment,
    if_pos j.isLt]

/-- If there is a single solution, the directions of both flats are independent together. -/
theorem rank_join_of_unique {y : ℕ → ℚ}
    (honly : ∀ x, (differenceGrid k m D E o q).IsSolution d (k + m) x ↔ ∀ l < k + m, x l = y l) :
    (Grid.corner (k + m) d (join k D E)).rank = k + m := by
  simp only [differenceGrid, Grid.isSolution_augment_iff] at honly
  rw [← linearIndependent_row_iff, Grid.linearIndependent_row_iff_forall]
  intro w hw a ha
  -- a solution plus one without constants is a solution
  have hsum : ∀ l < k + m, y l + w l = y l := by
    refine (honly fun l => y l + w l).1 fun i hi => ?_
    have hzero : ∑ j ∈ Finset.range (k + m), join k D E j i * w j = 0 := by
      simp only [mul_comm (join k D E _ i), hw i hi]
    simp only [mul_add, Finset.sum_add_distrib]
    rw [(honly y).2 (fun _ _ => rfl) i hi, hzero, add_zero]
  exact add_eq_left.1 (hsum a ha)

/-- **The parameters of the first flat tell the solutions apart**, if the directions of the second
are independent. -/
theorem eq_of_isSolution_difference (hE : (tabulate m d E q).Independent) {t u : ℕ → ℚ}
    (ht : (differenceGrid k m D E o q).IsSolution d (k + m) t)
    (hu : (differenceGrid k m D E o q).IsSolution d (k + m) u) (h : ∀ a < k, t a = u a) :
    ∀ l < k + m, t l = u l := by
  rw [isSolution_difference_iff] at ht hu
  -- the point of the first flat is that of the second
  have hpoint : pointOf m d E q (fun b => t (k + b)) = pointOf m d E q fun b => u (k + b) := by
    refine DenseVector.tabulate_congr fun i hi => ?_
    have hfirst : ∑ a ∈ Finset.range k, t a * D a i = ∑ a ∈ Finset.range k, u a * D a i :=
      Finset.sum_congr rfl fun a ha => by rw [h a (Finset.mem_range.1 ha)]
    rw [← ht i hi, hfirst, hu i hi]
  have hsecond := independent_tabulate_iff.1 hE _ _ hpoint
  intro l hl
  rcases Nat.lt_or_ge l k with hlk | hlk
  · exact h l hlk
  · obtain ⟨b, rfl⟩ := Nat.exists_eq_add_of_le hlk
    exact hsecond b (by omega)

/-- **The directions of the common points are independent**, if those of both flats are. -/
theorem independent_image {κ : ℕ} {S : ℕ → ℕ → ℚ} {σ : ℕ → ℚ} {chosen : ℕ → ℕ}
    (hD : (tabulate k d D o).Independent) (hE : (tabulate m d E q).Independent)
    (hchosen : ∀ a < κ, chosen a < k + m)
    (hfree : ∀ t : ℕ → ℚ, ∀ a < κ, σ (chosen a)
      + ∑ b ∈ Finset.range κ, t b * S b (chosen a) = t a)
    (hsolution : ∀ t : ℕ → ℚ, (differenceGrid k m D E o q).IsSolution d (k + m) fun l =>
      σ l + ∑ b ∈ Finset.range κ, t b * S b l) :
    (tabulate κ d (fun b l => ∑ a ∈ Finset.range k, S b a * D a l)
      fun l => o l + ∑ a ∈ Finset.range k, σ a * D a l).Independent := by
  rw [independent_tabulate_iff]
  intro t u hpoint a ha
  rw [pointOf_image, pointOf_image] at hpoint
  have hfirst := independent_tabulate_iff.1 hD _ _ hpoint
  have hall := eq_of_isSolution_difference hE (hsolution t) (hsolution u) hfirst
  -- the free unknowns are the parameters
  rw [← hfree t a ha, ← hfree u a ha]
  exact hall (chosen a) (hchosen a ha)

/-! ### The dimension -/

/-- The intersection of flats with independent directions and a common point has as many
independent directions as those of both flats exceed the rank of all of them. -/
theorem exists_independent_intersection (hD : (tabulate k d D o).Independent)
    (hE : (tabulate m d E q).Independent)
    (hcommon : ∃ x, (tabulate k d D o).HasPoint x ∧ (tabulate m d E q).HasPoint x) {n : ℕ}
    (hn : k + m - (Grid.corner (k + m) d (join k D E)).rank = n) :
    ∃ s, ((tabulate k d D o).intersection (tabulate m d E q)).outcome = .ok s ∧
      s.dimension? = some n ∧ ((∃ p, s = .point p) ↔ n = 0) ∧
      ∀ e, s = .space e → e.WellFormed ∧ e.Independent ∧ e.span.directions ≠ [] := by
  obtain ⟨s, hs, hdescribes⟩ :=
    LinearSystem.exists_describes (fun form => List.Perm.refl form.terms) d (k + m)
      (differenceGrid k m D E o q)
  rw [rank_after_differenceGrid, hn] at hdescribes
  rw [outcome_intersection_tabulate (fun a ha => hD.wellFormed.isZero_direction ha)
    (fun b hb => hE.wellFormed.isZero_direction hb) hs]
  have hk : k ≤ k + m := Nat.le_add_right k m
  cases hdescribes with
  | empty hnone =>
    obtain ⟨x, hx⟩ := hcommon
    obtain ⟨t, ht, -⟩ := hasPoint_and_iff.1 hx
    exact absurd ht (hnone t)
  | point y honly =>
    obtain rfl : n = 0 := by rw [← hn, rank_join_of_unique honly, Nat.sub_self]
    refine ⟨.point (pointOf k d D o y), ?_, rfl, iff_of_true ⟨_, rfl⟩ rfl, nofun⟩
    simp only [DenseVector.initial_tabulate y hk, ok_bind, pointAt_tabulate, map_ok]
  | space chosen S σ hpos hchosen hfree hall =>
    have hparameters := SolutionSet.Describes.iff_exists_parameters hchosen hfree hall
    have hindependent := independent_image hD hE hchosen hfree
      fun t => (hparameters _).2 ⟨t, fun _ _ => rfl⟩
    simp only [image_tabulate_of_wellFormed hk hindependent.wellFormed, map_ok]
    refine ⟨_, rfl, congrArg some (size_span_tabulate _ _), iff_of_false nofun hpos.ne', ?_⟩
    intro e he
    obtain rfl := SolutionSet.space.inj he
    refine ⟨hindependent.wellFormed, hindependent, List.ne_nil_of_length_pos ?_⟩
    exact hpos.trans_eq (size_span_tabulate _ _).symm

/-- **The dimension of an intersection.** Two flats of one space whose directions are linearly
independent, and which have a common point, intersect in a set whose dimension is the sum of their
dimensions less that of the span of all directions. It is given as a point if and only if that is
zero, and otherwise by directions that are linearly independent again, one at least. -/
theorem intersection_dimension {f g : Flat ℚ}
    (hf : ∀ v ∈ f.span.directions, v.dim = f.ambientDim)
    (hg : ∀ v ∈ g.span.directions, v.dim = g.ambientDim) (hdim : f.ambientDim = g.ambientDim)
    (hfindependent : f.Independent) (hgindependent : g.Independent)
    (hcommon : ∃ x, f.HasPoint x ∧ g.HasPoint x) :
    ∃ dimf dimg difference joint s, f.span.dimension.outcome = .ok dimf ∧
      g.span.dimension.outcome = .ok dimg ∧ f.difference g = .ok difference ∧
      difference.span.dimension.outcome = .ok joint ∧ joint ≤ dimf + dimg ∧
      (f.intersection g).outcome = .ok s ∧ s.dimension? = some (dimf + dimg - joint) ∧
      ((∃ p, s = .point p) ↔ dimf + dimg - joint = 0) ∧
      ∀ e, s = .space e → e.WellFormed ∧ e.Independent ∧ e.span.directions ≠ [] := by
  obtain ⟨D, o, hf'⟩ := exists_tabulate hf
  obtain ⟨E, q, hg'⟩ := exists_tabulate hg
  rw [hf'] at hfindependent hcommon ⊢
  rw [hg', ← hdim] at hgindependent hcommon ⊢
  generalize f.span.size = k, g.span.size = m, f.ambientDim = d at *
  have hdifference := difference_tabulate (o := o) (q := q)
    (fun a ha => hfindependent.wellFormed.isZero_direction ha)
    (fun b hb => hgindependent.wellFormed.isZero_direction hb)
  obtain ⟨s, hs⟩ := exists_independent_intersection hfindependent hgindependent hcommon rfl
  exact ⟨k, m, _, _, s, hfindependent.outcome_dimension, hgindependent.outcome_dimension,
    hdifference, SpanningSet.outcome_dimension_tabulate _, Matrix.rank_le_height _, hs⟩

/-- Two planes of space meet in a line. -/
theorem intersection_dimension_of_planes :
    let f : Flat ℚ := ⟨⟨[⟨[1, 0, 0]⟩, ⟨[0, 1, 0]⟩]⟩, ⟨[0, 0, 0]⟩⟩
    let g : Flat ℚ := ⟨⟨[⟨[1, 1, 0]⟩, ⟨[0, 0, 1]⟩]⟩, ⟨[1, 2, 0]⟩⟩
    ∃ s, (f.intersection g).outcome = .ok s ∧ s.dimension? = some 1 ∧ ¬∃ p, s = .point p := by
  intro f g
  have hfirst : f.HasPoint ⟨[1, 2, 0]⟩ := ⟨[1, 2], by decide +kernel⟩
  have hsecond : g.HasPoint ⟨[1, 2, 0]⟩ := ⟨[0, 0], by decide +kernel⟩
  obtain ⟨dimf, dimg, difference, joint, s, hf, hg, hdifference, hjoint, -, hs, hdim, hpoint, -⟩ :=
    intersection_dimension (f := f) (g := g) (by decide) (by decide) rfl
      ((independent_iff_areIndependent (by decide)).2 (by decide +kernel))
      ((independent_iff_areIndependent (by decide)).2 (by decide +kernel)) ⟨_, hfirst, hsecond⟩
  obtain rfl : dimf = 2 := Except.ok.inj (hf.symm.trans (by decide +kernel))
  obtain rfl : dimg = 2 := Except.ok.inj (hg.symm.trans (by decide +kernel))
  obtain rfl : difference = ⟨⟨[⟨[1, 0, 0]⟩, ⟨[0, 1, 0]⟩, ⟨[-1, -1, 0]⟩, ⟨[0, 0, -1]⟩]⟩,
      ⟨[-1, -2, 0]⟩⟩ := Except.ok.inj (hdifference.symm.trans (by decide +kernel))
  obtain rfl : joint = 3 := Except.ok.inj (hjoint.symm.trans (by decide +kernel))
  exact ⟨s, hs, hdim, mt hpoint.1 one_ne_zero⟩

end LinearSystems.Flat
