import LinearSystems.Proofs.Flat.Tabulate
import LinearSystems.Proofs.Rational.Products

/-!
# Points of rational flats

The point with given parameters is the offset plus the sum of the directions, each multiplied by
its parameter (`pointOf`); that coefficients which are zero are skipped makes no difference. Zero
directions may be dropped, because the points depend on the span of the directions alone
(`hasPoint_iff_mem_span`). `DenseVector.span` is that span, as a space of coordinates.
-/

namespace LinearSystems

variable {k d : ℕ}

namespace Flat

variable (directions : ℕ → ℕ → ℚ) (offset t : ℕ → ℚ)

/-- The offset plus the sum of the directions, each multiplied by its parameter. -/
def pointOf (k d : ℕ) (directions : ℕ → ℕ → ℚ) (offset t : ℕ → ℚ) : DenseVector ℚ :=
  DenseVector.tabulate d fun l => offset l + ∑ a ∈ Finset.range k, t a * directions a l

/-- Only the first `k` parameters matter. -/
theorem pointOf_congr {t u : ℕ → ℚ} (h : ∀ a < k, t a = u a) :
    pointOf k d directions offset t = pointOf k d directions offset u := by
  refine DenseVector.tabulate_congr fun l _ => ?_
  refine congrArg (offset l + ·) (Finset.sum_congr rfl fun a ha => ?_)
  rw [h a (Finset.mem_range.1 ha)]

/-- A sum of multiples of directions that starts at any vector. -/
theorem foldlM_directions (v : ℕ → ℚ) :
    (List.range k).foldlM (fun w a =>
      if Scalar.isZero (t a) then .ok w
      else w.add ((DenseVector.tabulate d (directions a)).scale (t a))) (DenseVector.tabulate d v)
      = (.ok (pointOf k d directions v t) : Except Fault (DenseVector ℚ)) := by
  induction k with
  | zero => simp [pointOf]
  | succ k ih =>
    rw [List.range_succ, List.foldlM_append, ih, ok_bind]
    simp only [List.foldlM_cons, List.foldlM_nil, bind_pure]
    split_ifs with hzero
    · refine congrArg Except.ok (DenseVector.tabulate_congr fun l _ => ?_)
      rw [Finset.sum_range_succ, Rational.isZero_iff.1 hzero, zero_mul, add_zero]
    · rw [pointOf, DenseVector.scale_tabulate, DenseVector.add_tabulate]
      refine congrArg Except.ok (DenseVector.tabulate_congr fun l _ => ?_)
      rw [Finset.sum_range_succ, Rational.add_eq, Rational.mul_eq, mul_comm, add_assoc]

theorem combine_tabulate :
    (tabulate k d directions offset).combine ((List.range k).map t)
      = .ok (DenseVector.tabulate d fun l => ∑ a ∈ Finset.range k, t a * directions a l) := by
  have hsum := foldlM_directions (k := k) (d := d) directions t fun _ => Scalar.zero
  simp only [pointOf, Rational.zero_eq, zero_add] at hsum
  rw [combine, tabulate, List.zip_map', List.foldlM_map, DenseVector.zeroLike,
    DenseVector.dim_tabulate, DenseVector.zero_eq_tabulate]
  exact hsum

theorem pointAt_tabulate :
    (tabulate k d directions offset).pointAt ((List.range k).map t)
      = .ok (pointOf k d directions offset t) := by
  rw [pointAt, if_pos (by simp), combine_tabulate, ok_bind]
  exact DenseVector.add_tabulate offset _

/-- A list is given by its length and its entries. -/
theorem exists_eq_map_range (params : List ℚ) :
    ∃ t : ℕ → ℚ, params = (List.range params.length).map t :=
  ⟨DenseVector.entry ⟨params⟩,
    (congrArg DenseVector.entries (DenseVector.tabulate_entry ⟨params⟩)).symm⟩

/-- **The points of a flat**: there is one for each choice of the parameters. -/
theorem pointAt_eq_ok_iff {params : List ℚ} {x : DenseVector ℚ} :
    (tabulate k d directions offset).pointAt params = .ok x ↔
      ∃ t : ℕ → ℚ, params = (List.range k).map t ∧ x = pointOf k d directions offset t := by
  constructor
  · intro h
    obtain ⟨t, ht⟩ := exists_eq_map_range params
    have hlength : params.length = k := by
      by_contra hne
      rw [pointAt, if_neg (by simpa using hne)] at h
      cases h
    rw [hlength] at ht
    rw [ht, pointAt_tabulate] at h
    exact ⟨t, ht, (Except.ok.inj h).symm⟩
  · rintro ⟨t, rfl, rfl⟩
    exact pointAt_tabulate directions offset t

theorem hasPoint_tabulate_iff {x : DenseVector ℚ} :
    (tabulate k d directions offset).HasPoint x ↔ ∃ t, x = pointOf k d directions offset t := by
  constructor
  · rintro ⟨params, h⟩
    obtain ⟨t, -, hx⟩ := (pointAt_eq_ok_iff directions offset).1 h
    exact ⟨t, hx⟩
  · rintro ⟨t, hx⟩
    exact ⟨_, (pointAt_eq_ok_iff directions offset).2 ⟨t, rfl, hx⟩⟩

/-- If the parameters are the values of chosen coordinates, a point has one list of parameters at
most, and has one if its coordinates fit them. -/
theorem pointAt_eq_ok_iff_of_chosen {directions : ℕ → ℕ → ℚ} {offset : ℕ → ℚ} {chosen : ℕ → ℕ}
    (hchosen : ∀ a < k, chosen a < d)
    (hfree : ∀ t : ℕ → ℚ, ∀ a < k, offset (chosen a)
      + ∑ b ∈ Finset.range k, t b * directions b (chosen a) = t a)
    {params : List ℚ} {x : DenseVector ℚ} :
    (tabulate k d directions offset).pointAt params = .ok x ↔
      params = (List.range k).map (fun a => x.entry (chosen a)) ∧ x.dim = d ∧
        ∀ l < d, x.entry l
          = offset l + ∑ b ∈ Finset.range k, x.entry (chosen b) * directions b l := by
  rw [pointAt_eq_ok_iff]
  constructor
  · rintro ⟨t, rfl, rfl⟩
    -- the coordinates that are chosen give the parameters back
    have ht : ∀ a < k, (pointOf k d directions offset t).entry (chosen a) = t a := fun a ha => by
      rw [pointOf, DenseVector.entry_tabulate _ (hchosen a ha), hfree t a ha]
    refine ⟨List.map_congr_left fun a ha => (ht a (List.mem_range.1 ha)).symm,
      DenseVector.dim_tabulate _, fun l hl => ?_⟩
    rw [pointOf, DenseVector.entry_tabulate _ hl, ← pointOf]
    refine congrArg (offset l + ·) (Finset.sum_congr rfl fun b hb => ?_)
    rw [ht b (Finset.mem_range.1 hb)]
  · rintro ⟨rfl, hdim, hentry⟩
    exact ⟨_, rfl, DenseVector.eq_tabulate_iff.2 ⟨hdim, hentry⟩⟩

/-! ### Coordinates -/

/-- The coordinates of a vector within a dimension. -/
def coordinates (d : ℕ) (v : DenseVector ℚ) : Fin d → ℚ := fun i => v.entry i

theorem coordinates_tabulate (x : ℕ → ℚ) :
    coordinates d (DenseVector.tabulate d x) = fun i : Fin d => x i :=
  funext fun i => DenseVector.entry_tabulate x i.isLt

/-- Vectors of one dimension with the same coordinates are equal. -/
theorem eq_of_coordinates_eq {v w : DenseVector ℚ} (hv : v.dim = d) (hw : w.dim = d)
    (h : coordinates d v = coordinates d w) : v = w := by
  rw [DenseVector.eq_tabulate_entry hw, DenseVector.eq_tabulate_iff]
  exact ⟨hv, fun i hi => congrFun h ⟨i, hi⟩⟩

/-- All coordinates are those of a vector. -/
theorem exists_coordinates_eq (y : Fin d → ℚ) :
    ∃ v : DenseVector ℚ, v.dim = d ∧ coordinates d v = y := by
  obtain ⟨x, hx⟩ := Rational.exists_sequence y
  exact ⟨DenseVector.tabulate d x, DenseVector.dim_tabulate x,
    (coordinates_tabulate x).trans (funext hx)⟩

theorem coordinates_zero (d : ℕ) : coordinates d (DenseVector.zero d) = 0 :=
  funext fun i => DenseVector.entry_zero d i

theorem coordinates_neg {v : DenseVector ℚ} (hv : v.dim = d) :
    coordinates d v.neg = -coordinates d v := by
  rw [DenseVector.eq_tabulate_entry hv, DenseVector.neg_tabulate, coordinates_tabulate,
    coordinates_tabulate]
  rfl

theorem coordinates_sub {v w u : DenseVector ℚ} (hv : v.dim = d) (hw : w.dim = d)
    (h : v.sub w = .ok u) : coordinates d u = coordinates d v - coordinates d w := by
  rw [DenseVector.eq_tabulate_entry hv, DenseVector.eq_tabulate_entry hw,
    DenseVector.sub_tabulate] at h
  rw [← Except.ok.inj h, coordinates_tabulate]
  rfl

/-- A vector counts as zero exactly if it is the origin. -/
theorem coordinates_eq_zero_iff {v : DenseVector ℚ} (hdim : v.dim = d) :
    coordinates d v = 0 ↔ v.isZero = true := by
  rw [DenseVector.eq_tabulate_entry hdim, DenseVector.isZero_tabulate, coordinates_tabulate,
    funext_iff, Fin.forall_iff]
  simp only [Rational.isZero_iff, Pi.zero_apply]

end Flat

namespace DenseVector

open Flat (coordinates)

variable {vectors : List (DenseVector ℚ)} {v : DenseVector ℚ}

/-! ### Spans -/

/-- The space that vectors span, by their coordinates within a dimension. -/
def span (d : ℕ) (vectors : List (DenseVector ℚ)) : Submodule ℚ (Fin d → ℚ) :=
  Submodule.span ℚ (coordinates d '' {v | v ∈ vectors})

theorem mem_span (h : v ∈ vectors) : coordinates d v ∈ span d vectors :=
  Submodule.subset_span ⟨v, h, rfl⟩

theorem span_le {space : Submodule ℚ (Fin d → ℚ)} :
    span d vectors ≤ space ↔ ∀ v ∈ vectors, coordinates d v ∈ space := by
  rw [span, Submodule.span_le, Set.image_subset_iff]
  rfl

/-- The span of two lists is the sum of their spans. -/
theorem span_append (vectors others : List (DenseVector ℚ)) :
    span d (vectors ++ others) = span d vectors ⊔ span d others := by
  have hunion : {v | v ∈ vectors ++ others} = {v | v ∈ vectors} ∪ {v | v ∈ others} :=
    Set.ext fun v => List.mem_append
  rw [span, hunion, Set.image_union, Submodule.span_union, span, span]

/-- Negated vectors have the same span. -/
theorem span_map_neg (h : ∀ v ∈ vectors, v.dim = d) :
    span d (vectors.map neg) = span d vectors := by
  refine le_antisymm (span_le.2 fun v hv => ?_) (span_le.2 fun v hv => ?_)
  · obtain ⟨w, hw, rfl⟩ := List.mem_map.1 hv
    rw [Flat.coordinates_neg (h w hw)]
    exact Submodule.neg_mem _ (mem_span hw)
  · rw [← neg_neg (coordinates d v), ← Flat.coordinates_neg (h v hv)]
    exact Submodule.neg_mem _ (mem_span (List.mem_map_of_mem hv))

/-- Zero vectors add nothing to a span. -/
theorem span_ofDirections (h : ∀ v ∈ vectors, v.dim = d) :
    span d (SpanningSet.ofDirections vectors).directions = span d vectors := by
  refine le_antisymm (span_le.2 fun v hv => mem_span (List.mem_filter.1 hv).1)
    (span_le.2 fun v hv => ?_)
  by_cases hzero : v.isZero = true
  · rw [(Flat.coordinates_eq_zero_iff (h v hv)).2 hzero]
    exact Submodule.zero_mem _
  · refine mem_span (List.mem_filter.2 ⟨hv, ?_⟩)
    simpa using hzero

/-- The span of a tabulated family is that of its sequences. -/
theorem span_map_tabulate_eq_range (x : ℕ → ℕ → ℚ) :
    span d ((List.range k).map fun a => tabulate d (x a))
      = Submodule.span ℚ (Set.range fun (a : Fin k) (i : Fin d) => x a i) := by
  refine congrArg (Submodule.span ℚ) (Set.ext fun w => ?_)
  constructor
  · rintro ⟨v, hv, rfl⟩
    obtain ⟨a, ha, rfl⟩ := List.mem_map.1 hv
    exact ⟨⟨a, List.mem_range.1 ha⟩, (Flat.coordinates_tabulate (x a)).symm⟩
  · rintro ⟨a, rfl⟩
    exact ⟨_, List.mem_map.2 ⟨a, List.mem_range.2 a.isLt, rfl⟩, Flat.coordinates_tabulate (x a)⟩

end DenseVector

namespace Flat

/-! ### Points and spans -/

/-- **The points of a flat** are those whose difference to the offset lies in the span of the
directions. -/
theorem hasPoint_iff_mem_span {f : Flat ℚ} (h : ∀ v ∈ f.span.directions, v.dim = f.ambientDim)
    (hd : f.ambientDim = d) {x : DenseVector ℚ} :
    f.HasPoint x ↔ x.dim = d ∧
      coordinates d x - coordinates d f.offset ∈ DenseVector.span d f.span.directions := by
  obtain ⟨directions, offset, hf⟩ := exists_tabulate h
  rw [hd] at hf
  rw [hf, hasPoint_tabulate_iff]
  generalize f.span.size = k
  simp only [tabulate, DenseVector.span_map_tabulate_eq_range, coordinates_tabulate,
    Submodule.mem_span_range_iff_exists_fun]
  constructor
  · rintro ⟨t, rfl⟩
    refine ⟨DenseVector.dim_tabulate _, fun a => t a, ?_⟩
    funext i
    simp only [pointOf, coordinates_tabulate, Finset.sum_apply, Pi.sub_apply, add_sub_cancel_left,
      Finset.sum_range]
    rfl
  · rintro ⟨hdim, w, hw⟩
    obtain ⟨t, ht⟩ := Rational.exists_sequence w
    refine ⟨t, DenseVector.eq_tabulate_iff.2 ⟨hdim, fun l hl => ?_⟩⟩
    have hl' := congrFun hw ⟨l, hl⟩
    rw [Finset.sum_apply, Pi.sub_apply] at hl'
    rw [Finset.sum_range, ← sub_eq_iff_eq_add']
    refine hl'.symm.trans (Finset.sum_congr rfl fun a _ => ?_)
    rw [ht]
    rfl

/-- Zero directions may be dropped: the points remain the same. -/
theorem hasPoint_ofDirections_iff {f : Flat ℚ}
    (h : ∀ v ∈ f.span.directions, v.dim = f.ambientDim) {x : DenseVector ℚ} :
    HasPoint ⟨SpanningSet.ofDirections f.span.directions, f.offset⟩ x ↔ f.HasPoint x := by
  have hkept : ∀ v ∈ (SpanningSet.ofDirections f.span.directions).directions,
      v.dim = f.ambientDim := fun v hv => h v (List.mem_filter.1 hv).1
  rw [hasPoint_iff_mem_span h rfl, ← DenseVector.span_ofDirections h]
  exact hasPoint_iff_mem_span hkept rfl

end Flat

end LinearSystems
