import LinearSystems.Proofs.Flat.Operations
import LinearSystems.Proofs.Rational.Solutions

/-!
# Intersections of rational flats

Over the rationals the intersection of two flats holds exactly their common points, also if their
directions are linearly dependent. A common point has parameters on both flats, which together
solve the system of the difference (`isSolution_difference_iff`); the first of them lead back to
the point. A direction of the solutions whose image is zero moves no point, so it may be dropped.

That the directions are not zero is needed for more than tidiness: the system has one unknown for
each direction that is not zero, and the parameters of the first flat are found by their number.
-/

namespace LinearSystems.Flat

variable {k m d n : ℕ} {D E : ℕ → ℕ → ℚ} {o q : ℕ → ℚ}

/-! ### The system of two flats -/

/-- The directions of a difference: those of the first flat, then the negated ones of the second. -/
def join (k : ℕ) (D E : ℕ → ℕ → ℚ) : ℕ → ℕ → ℚ := fun a l =>
  if a < k then D a l else -E (a - k) l

/-- The augmented matrix in the parameters of both flats: the directions of the difference, and its
negated offset. -/
def differenceGrid (k m : ℕ) (D E : ℕ → ℕ → ℚ) (o q : ℕ → ℚ) : Grid ℚ :=
  Grid.augment (k + m) (fun i j => join k D E j i) fun i => -(o i - q i)

/-- Without zero directions, a difference keeps all directions of both flats. -/
theorem difference_tabulate
    (hD : ∀ a < k, (DenseVector.tabulate d (D a)).isZero = false)
    (hE : ∀ b < m, (DenseVector.tabulate d (E b)).isZero = false) :
    (tabulate k d D o).difference (tabulate m d E q)
      = .ok (tabulate (k + m) d (join k D E) fun l => o l - q l) := by
  have hdirections : (tabulate k d D o).span.directions
      ++ (tabulate m d E q).span.directions.map DenseVector.neg
      = (List.range (k + m)).map fun a => DenseVector.tabulate d (join k D E a) := by
    rw [List.range_add, List.map_append, List.map_map]
    congr 1
    · refine List.map_congr_left fun a ha => DenseVector.tabulate_congr fun l _ => ?_
      rw [join, if_pos (List.mem_range.1 ha)]
    · rw [tabulate, List.map_map]
      refine List.map_congr_left fun b _ => ?_
      rw [Function.comp_apply, Function.comp_apply, DenseVector.neg_tabulate]
      refine DenseVector.tabulate_congr fun l _ => ?_
      rw [join, if_neg (Nat.not_lt.2 (Nat.le_add_right k b)), Nat.add_sub_cancel_left,
        Rational.neg_eq]
  have hf : (tabulate k d D o).WellFormed := wellFormed_tabulate hD
  have hg : (tabulate m d E q).WellFormed := wellFormed_tabulate hE
  obtain ⟨offset, hsub, hdifference⟩ := exists_difference_eq hf hg (by simp)
  rw [hdifference, hdirections]
  simp only [tabulate, DenseVector.sub_tabulate, Rational.sub_eq] at hsub
  rw [← Except.ok.inj hsub]
  rfl

/-- **The parameters of a common point solve the system of the difference.** -/
theorem isSolution_difference_iff (x : ℕ → ℚ) :
    (differenceGrid k m D E o q).IsSolution d (k + m) x
      ↔ ∀ i < d, o i + ∑ a ∈ Finset.range k, x a * D a i
          = q i + ∑ b ∈ Finset.range m, x (k + b) * E b i := by
  rw [differenceGrid, Grid.isSolution_augment_iff]
  refine forall_congr' fun i => forall_congr' fun _ => ?_
  -- one equation: the summands of the first flat, and the negated ones of the second
  have hsum : ∑ j ∈ Finset.range (k + m), join k D E j i * x j
      = ∑ a ∈ Finset.range k, x a * D a i - ∑ b ∈ Finset.range m, x (k + b) * E b i := by
    rw [Finset.sum_range_add, sub_eq_add_neg, ← Finset.sum_neg_distrib]
    congr 1
    · refine Finset.sum_congr rfl fun a ha => ?_
      rw [join, if_pos (Finset.mem_range.1 ha), mul_comm]
    · refine Finset.sum_congr rfl fun b _ => ?_
      rw [join, if_neg (by omega), Nat.add_sub_cancel_left, neg_mul, mul_comm]
  rw [hsum]
  constructor
  · intro h
    linarith
  · intro h
    linarith

/-- Common points are the points of the first flat whose parameters belong to a solution. -/
theorem hasPoint_and_iff {x : DenseVector ℚ} :
    (tabulate k d D o).HasPoint x ∧ (tabulate m d E q).HasPoint x ↔
      ∃ t, (differenceGrid k m D E o q).IsSolution d (k + m) t ∧ x = pointOf k d D o t := by
  simp only [isSolution_difference_iff, hasPoint_tabulate_iff]
  constructor
  · rintro ⟨⟨t, rfl⟩, u, hu⟩
    -- the parameters of both flats, one list behind the other
    set w : ℕ → ℚ := fun j => if j < k then t j else u (j - k) with hw
    have hfirst : ∀ a < k, t a = w a := fun a ha => by
      simp only [hw]
      rw [if_pos ha]
    have hsecond : ∀ b < m, u b = w (k + b) := fun b _ => by
      simp only [hw]
      rw [if_neg (by omega), Nat.add_sub_cancel_left]
    rw [pointOf_congr D o hfirst, pointOf_congr E q hsecond] at hu
    exact ⟨w, DenseVector.tabulate_inj.1 hu, pointOf_congr D o hfirst⟩
  · rintro ⟨t, ht, rfl⟩
    exact ⟨⟨t, rfl⟩, fun b => t (k + b), DenseVector.tabulate_congr ht⟩

/-! ### Images -/

/-- The image of a flat of parameters. Directions without a trace in the image are dropped. -/
theorem image_tabulate {κ c : ℕ} {S : ℕ → ℕ → ℚ} {σ : ℕ → ℚ} (hk : k ≤ c) :
    (tabulate k d D o).image (tabulate κ c S σ)
      = .ok ⟨SpanningSet.ofDirections ((List.range κ).map fun b =>
          DenseVector.tabulate d fun l => ∑ a ∈ Finset.range k, S b a * D a l),
        pointOf k d D o σ⟩ := by
  have hdirection : ∀ v ∈ (tabulate κ c S σ).span.directions,
      (v.initial k >>= (tabulate k d D o).combine)
        = .ok (DenseVector.tabulate d fun l => ∑ a ∈ Finset.range k, v.entry a * D a l) := by
    intro v hv
    obtain ⟨b, -, rfl⟩ := List.mem_map.1 hv
    rw [DenseVector.initial_tabulate _ hk, ok_bind, combine_tabulate]
    refine congrArg Except.ok (DenseVector.tabulate_congr fun l _ => ?_)
    refine Finset.sum_congr rfl fun a ha => ?_
    rw [DenseVector.entry_tabulate _ ((Finset.mem_range.1 ha).trans_le hk)]
  have hmap : (tabulate κ c S σ).span.directions.map
      (fun v => DenseVector.tabulate d fun l => ∑ a ∈ Finset.range k, v.entry a * D a l)
      = (List.range κ).map fun b =>
          DenseVector.tabulate d fun l => ∑ a ∈ Finset.range k, S b a * D a l := by
    rw [tabulate, List.map_map]
    refine List.map_congr_left fun b _ => DenseVector.tabulate_congr fun l _ => ?_
    refine Finset.sum_congr rfl fun a ha => ?_
    rw [DenseVector.entry_tabulate _ ((Finset.mem_range.1 ha).trans_le hk)]
  have hoffset : (tabulate κ c S σ).offset.initial k = .ok ((List.range k).map σ) :=
    DenseVector.initial_tabulate σ hk
  rw [image]
  simp only [size_span_tabulate, hoffset, ok_bind, pointAt_tabulate, mapM_eq_ok hdirection, hmap,
    pure_eq_ok]

/-- If no direction of the parameters vanishes in the image, it has all of them. -/
theorem image_tabulate_of_wellFormed {κ c : ℕ} {S : ℕ → ℕ → ℚ} {σ : ℕ → ℚ} (hk : k ≤ c)
    (h : (tabulate κ d (fun b l => ∑ a ∈ Finset.range k, S b a * D a l)
      fun l => o l + ∑ a ∈ Finset.range k, σ a * D a l).WellFormed) :
    (tabulate k d D o).image (tabulate κ c S σ)
      = .ok (tabulate κ d (fun b l => ∑ a ∈ Finset.range k, S b a * D a l)
        fun l => o l + ∑ a ∈ Finset.range k, σ a * D a l) := by
  have hkept := SpanningSet.ofDirections_eq fun v hv => (h v hv).2
  rw [image_tabulate hk]
  exact congrArg (fun span => Except.ok (mk span (pointOf k d D o σ))) hkept

/-- The points of an image are the points for the values of the flat of parameters. -/
theorem pointOf_image {κ : ℕ} {S : ℕ → ℕ → ℚ} {σ : ℕ → ℚ} (u : ℕ → ℚ) :
    pointOf κ d (fun b l => ∑ a ∈ Finset.range k, S b a * D a l)
        (fun l => o l + ∑ a ∈ Finset.range k, σ a * D a l) u
      = pointOf k d D o fun a => σ a + ∑ b ∈ Finset.range κ, u b * S b a := by
  refine DenseVector.tabulate_congr fun l _ => ?_
  simp only [add_mul, Finset.sum_add_distrib, Finset.sum_mul, Finset.mul_sum, mul_assoc]
  rw [Finset.sum_comm, add_assoc]

/-- **The points of an image** are those whose parameters are values of the flat of parameters. -/
theorem hasPoint_image_iff {κ : ℕ} {S : ℕ → ℕ → ℚ} {σ : ℕ → ℚ} {x : DenseVector ℚ} :
    HasPoint ⟨SpanningSet.ofDirections ((List.range κ).map fun b =>
          DenseVector.tabulate d fun l => ∑ a ∈ Finset.range k, S b a * D a l),
        pointOf k d D o σ⟩ x ↔
      ∃ u : ℕ → ℚ, x = pointOf k d D o fun a => σ a + ∑ b ∈ Finset.range κ, u b * S b a := by
  -- the image before its zero directions are dropped
  set f := tabulate κ d (fun b l => ∑ a ∈ Finset.range k, S b a * D a l)
    fun l => o l + ∑ a ∈ Finset.range k, σ a * D a l with hf
  have hdims : ∀ v ∈ f.span.directions, v.dim = f.ambientDim := by
    intro v hv
    obtain ⟨b, -, rfl⟩ := List.mem_map.1 hv
    rw [DenseVector.dim_tabulate, hf, ambientDim_tabulate]
  refine (hasPoint_ofDirections_iff hdims).trans ?_
  rw [hf, hasPoint_tabulate_iff]
  simp only [pointOf_image]

/-- The image of a flat of solutions holds the points whose parameters belong to a solution. -/
theorem hasPoint_image_iff_of_parameters {κ c : ℕ} {S : ℕ → ℕ → ℚ} {σ : ℕ → ℚ}
    {P : (ℕ → ℚ) → Prop} (hk : k ≤ c)
    (hP : ∀ t, P t ↔ ∃ u : ℕ → ℚ, ∀ l < c, t l = σ l + ∑ b ∈ Finset.range κ, u b * S b l)
    {x : DenseVector ℚ} :
    HasPoint ⟨SpanningSet.ofDirections ((List.range κ).map fun b =>
          DenseVector.tabulate d fun l => ∑ a ∈ Finset.range k, S b a * D a l),
        pointOf k d D o σ⟩ x ↔ ∃ t, P t ∧ x = pointOf k d D o t := by
  rw [hasPoint_image_iff]
  constructor
  · rintro ⟨u, rfl⟩
    exact ⟨_, (hP _).2 ⟨u, fun _ _ => rfl⟩, rfl⟩
  · rintro ⟨t, ht, rfl⟩
    obtain ⟨u, hu⟩ := (hP t).1 ht
    exact ⟨u, pointOf_congr D o fun a ha => hu a (ha.trans_le hk)⟩

/-- A single solution leads to a single point. -/
theorem exists_iff_eq_of_unique {c : ℕ} {y : ℕ → ℚ} {P : (ℕ → ℚ) → Prop} (hk : k ≤ c)
    (hP : ∀ t, P t ↔ ∀ l < c, t l = y l) {x : DenseVector ℚ} :
    (∃ t, P t ∧ x = pointOf k d D o t) ↔ x = pointOf k d D o y := by
  constructor
  · rintro ⟨t, ht, rfl⟩
    exact pointOf_congr D o fun a ha => (hP t).1 ht a (ha.trans_le hk)
  · rintro rfl
    exact ⟨y, (hP y).2 fun _ _ => rfl, rfl⟩

/-! ### The intersection -/

/-- The steps of an intersection up to the solutions of the system, which are then led back. -/
theorem outcome_intersection_tabulate
    (hD : ∀ a < k, (DenseVector.tabulate d (D a)).isZero = false)
    (hE : ∀ b < m, (DenseVector.tabulate d (E b)).isZero = false) {s : SolutionSet ℚ}
    (hs : (LinearSystem.solution ⟨DenseMatrix.tabulate d (k + m + 1)
      (differenceGrid k m D E o q)⟩).outcome = .ok s) :
    ((tabulate k d D o).intersection (tabulate m d E q)).outcome =
      match s with
      | .empty => .ok .empty
      | .point p => SolutionSet.point <$> (p.initial k >>= (tabulate k d D o).pointAt)
      | .space e => SolutionSet.space <$> (tabulate k d D o).image e := by
  have hsystem : system ⟨(tabulate (k + m) d (join k D E) fun l => o l - q l).span,
      (tabulate (k + m) d (join k D E) fun l => o l - q l).offset.neg⟩
      = .ok ⟨DenseMatrix.tabulate d (k + m + 1) (differenceGrid k m D E o q)⟩ := by
    rw [differenceGrid, ← system_tabulate, tabulate, tabulate, DenseVector.neg_tabulate]
    rfl
  rw [outcome_intersection (difference_tabulate hD hE) hsystem hs]
  cases s <;> simp only [leadBack, size_span_tabulate]

/-- **The intersection holds the common points**, also if directions are linearly dependent. Flats
of one space always have an answer: it is empty if and only if they have no point in common, a
point is the only one that they have in common, and a flat has exactly the common points. -/
theorem intersection_eq_common_points {f g : Flat ℚ} (hf : f.WellFormed) (hg : g.WellFormed)
    (hdim : f.ambientDim = g.ambientDim) :
    ∃ s, (f.intersection g).outcome = .ok s ∧
      (s = .empty ↔ ¬∃ x, f.HasPoint x ∧ g.HasPoint x) ∧
      (∀ p, s = .point p → ∀ x, f.HasPoint x ∧ g.HasPoint x ↔ x = p) ∧
      ∀ e, s = .space e → ∀ x, e.HasPoint x ↔ f.HasPoint x ∧ g.HasPoint x := by
  obtain ⟨D, o, hf'⟩ := exists_tabulate fun v hv => (hf v hv).1
  obtain ⟨E, q, hg'⟩ := exists_tabulate fun v hv => (hg v hv).1
  rw [hf'] at hf ⊢
  rw [hg', ← hdim] at hg ⊢
  generalize f.span.size = k, g.span.size = m, f.ambientDim = d at *
  obtain ⟨s, hs, hdescribes⟩ :=
    LinearSystem.exists_describes (fun form => List.Perm.refl form.terms) d (k + m)
      (differenceGrid k m D E o q)
  rw [outcome_intersection_tabulate (fun a ha => hf.isZero_direction ha)
    (fun b hb => hg.isZero_direction hb) hs]
  simp only [hasPoint_and_iff]
  have hk : k ≤ k + m := Nat.le_add_right k m
  cases hdescribes with
  | empty hnone =>
    refine ⟨.empty, rfl, iff_of_true rfl ?_, nofun, nofun⟩
    rintro ⟨x, t, ht, -⟩
    exact hnone t ht
  | point y honly =>
    have hpoint : ((DenseVector.tabulate (k + m) y).initial k >>= (tabulate k d D o).pointAt)
        = .ok (pointOf k d D o y) := by
      rw [DenseVector.initial_tabulate y hk, ok_bind, pointAt_tabulate]
    simp only [exists_iff_eq_of_unique hk honly, hpoint, map_ok]
    refine ⟨_, rfl, iff_of_false nofun fun h => h ⟨_, rfl⟩, ?_, nofun⟩
    intro p hp x
    rw [SolutionSet.point.inj hp]
  | space chosen S σ hpos hchosen hfree hall =>
    have hparameters := SolutionSet.Describes.iff_exists_parameters hchosen hfree hall
    have hpoints := fun x => hasPoint_image_iff_of_parameters (d := d) (D := D) (o := o) (x := x)
      hk hparameters
    simp only [image_tabulate hk, map_ok]
    refine ⟨_, rfl, iff_of_false nofun fun h => h ?_, nofun, ?_⟩
    · -- the parameters zero of the solutions give a common point
      obtain ⟨t, ht⟩ : ∃ t, (differenceGrid k m D E o q).IsSolution d (k + m) t :=
        ⟨_, (hparameters _).2 ⟨fun _ => 0, fun _ _ => rfl⟩⟩
      exact ⟨_, t, ht, rfl⟩
    · rintro e he x
      rw [← SolutionSet.space.inj he, hpoints]

/-- Two lines of the plane, one of them with a direction too many, meet in the origin. -/
theorem intersection_of_redundant_line :
    let f : Flat ℚ := ⟨⟨[⟨[1, 1]⟩, ⟨[2, 2]⟩]⟩, ⟨[0, 0]⟩⟩
    let g : Flat ℚ := ⟨⟨[⟨[1, 0]⟩]⟩, ⟨[0, 0]⟩⟩
    ∃ s, (f.intersection g).outcome = .ok s ∧ s ≠ .empty := by
  intro f g
  obtain ⟨s, hs, hempty, -, -⟩ :=
    intersection_eq_common_points (f := f) (g := g) (by decide) (by decide) rfl
  have hfirst : f.HasPoint ⟨[0, 0]⟩ := ⟨[0, 0], by decide +kernel⟩
  have hsecond : g.HasPoint ⟨[0, 0]⟩ := ⟨[0], by decide +kernel⟩
  exact ⟨s, hs, fun h => hempty.1 h ⟨_, hfirst, hsecond⟩⟩

end LinearSystems.Flat
