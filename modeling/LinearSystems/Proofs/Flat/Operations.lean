import LinearSystems.Proofs.Flat.Tabulate
import LinearSystems.Proofs.DenseMatrix.Layout
import LinearSystems.Flat.Intersection
import Mathlib.Order.Nat

/-!
# Operations on well-formed flats

The operations on flats do not check what they rely on. A difference is expected to keep all
directions of both flats, because the parameters of a common point are told apart by their number;
the directions and the offset of a flat are laid side by side as the columns of a matrix; and only
the first coordinates of a solution are read. For well-formed flats all of this succeeds, whatever
the scalars are, and the results are well-formed again. Sums and multiples of directions may vanish
or become NaNs: they keep their dimension, and that is all that is asked of them.

Of the arithmetic it is only used that a negation counts as zero only if the negated element does
(`NegationKeepsNonzero`), for the negated directions of a difference.
-/

namespace LinearSystems

variable {K : Type} [Scalar K]

/-- The set lies in a space of dimension `n`, and if it is a flat, it is a well-formed one. -/
def SolutionSet.LiesIn (n : ℕ) : SolutionSet K → Prop
  | .empty => True
  | .point p => p.dim = n
  | .space f => f.ambientDim = n ∧ f.WellFormed

/-! ### Spanning sets and lines -/

/-- Directions that are not zero are kept. -/
theorem SpanningSet.ofDirections_eq {directions : List (DenseVector K)}
    (h : ∀ v ∈ directions, v.isZero = false) : ofDirections directions = ⟨directions⟩ :=
  congrArg mk (List.filter_eq_self.2 fun v hv => by rw [h v hv, Bool.not_false])

/-- Directions are dropped exactly if one of them is zero. -/
theorem SpanningSet.size_ofDirections_eq_iff {directions : List (DenseVector K)} :
    (ofDirections directions).size = directions.length ↔ ∀ v ∈ directions, v.isZero = false := by
  rw [size, ofDirections, List.length_filter_eq_length_iff]
  simp only [Bool.not_eq_true']

/-- **No direction of a checked spanning set is zero.** -/
theorem SpanningSet.isZero_of_eq_ok {directions : List (DenseVector K)} {span : SpanningSet K}
    (h : SpanningSet.of directions = .ok span) : ∀ v ∈ span.directions, v.isZero = false := by
  rw [SpanningSet.of] at h
  split at h
  · cases h
  · cases h
    exact fun v hv => isZero_of_mem_ofDirections hv

/-- Vectors of one dimension span something. -/
theorem SpanningSet.of_eq_ok {directions : List (DenseVector K)} {d : ℕ}
    (h : ∀ v ∈ directions, v.dim = d) :
    SpanningSet.of directions = .ok (ofDirections directions) := by
  have hnone : (directions.find? fun v =>
      v.dim != (directions.head?.map DenseVector.dim).getD 0) = none := by
    cases directions with
    | nil => rfl
    | cons w ws =>
      rw [List.find?_eq_none]
      intro v hv
      simp [h v hv, h w List.mem_cons_self]
  rw [SpanningSet.of]
  simp only [hnone]

/-- Vectors of which two differ in dimension are refused, with the first one that differs from the
first of all. -/
theorem SpanningSet.exists_of_eq_error {directions : List (DenseVector K)}
    (h : ∃ v ∈ directions, ∃ w ∈ directions, v.dim ≠ w.dim) :
    ∃ first found, directions.head? = some first ∧
      directions.find? (fun v => v.dim != first.dim) = some found ∧
      SpanningSet.of directions = .error (.columnMismatch first.dim found.dim) := by
  cases directions with
  | nil =>
    obtain ⟨v, hv, -⟩ := h
    exact absurd hv List.not_mem_nil
  | cons first rest =>
    cases hfind : (first :: rest).find? (fun v => v.dim != first.dim) with
    | some found =>
      refine ⟨first, found, rfl, hfind, ?_⟩
      rw [SpanningSet.of]
      simp only [List.head?_cons, Option.map_some, Option.getD_some, hfind]
    | none =>
      have hdim : ∀ v ∈ first :: rest, v.dim = first.dim := fun v hv => by
        simpa using List.find?_eq_none.1 hfind v hv
      obtain ⟨v, hv, w, hw, hne⟩ := h
      exact absurd ((hdim v hv).trans (hdim w hw).symm) hne

/-- No direction of a row space is zero. -/
theorem DenseMatrix.isZero_of_rowSpace {m : DenseMatrix K} {span : SpanningSet K}
    (h : m.rowSpace.outcome = .ok span) : ∀ v ∈ span.directions, v.isZero = false := by
  obtain ⟨echelon, -, h⟩ := Traced.outcome_bind_eq_ok.1 h
  obtain ⟨rows, -, h⟩ := Traced.outcome_bind_eq_ok.1 h
  cases h
  exact fun v hv => SpanningSet.isZero_of_mem_ofDirections hv

/-- No direction of a column space is zero. -/
theorem DenseMatrix.isZero_of_colSpace {m : DenseMatrix K} {span : SpanningSet K}
    (h : m.colSpace.outcome = .ok span) : ∀ v ∈ span.directions, v.isZero = false := by
  obtain ⟨pivots, -, h⟩ := Traced.outcome_bind_eq_ok.1 h
  obtain ⟨columns, -, h⟩ := Traced.outcome_bind_eq_ok.1 h
  cases h
  exact fun v hv => SpanningSet.isZero_of_mem_ofDirections hv

namespace Flat

variable {f g : Flat K}

theorem wellFormed_point (p : DenseVector K) : (point p).WellFormed := fun _ hv =>
  absurd hv List.not_mem_nil

theorem wellFormed_line {p direction : DenseVector K} (h : line p direction = .ok f) :
    f.WellFormed := by
  obtain ⟨span, hspan, hof⟩ := bind_eq_ok.1 h
  exact wellFormed_of_eq_ok (SpanningSet.isZero_of_eq_ok hspan) hof

/-- The line through two points is well-formed, also if they are the same: it has no direction
then. -/
theorem wellFormed_lineThrough {p q : DenseVector K} (h : lineThrough p q = .ok f) :
    f.WellFormed := by
  rw [lineThrough] at h
  split_ifs at h with hdim
  obtain ⟨direction, -, hline⟩ := bind_eq_ok.1 h
  exact wellFormed_line hline

/-- The lines of the plane that are made without a check. -/
theorem wellFormed_along {direction offset : DenseVector K} (h : direction.dim = offset.dim) :
    (along direction offset).WellFormed :=
  wellFormed_ofDirections fun v hv => by rwa [List.mem_singleton.1 hv]

/-! ### Points and images -/

/-- Multiples of the directions have a sum, if the directions have one dimension. -/
theorem exists_combine (h : ∀ v ∈ f.span.directions, v.dim = f.ambientDim)
    (coefficients : List K) :
    ∃ v, f.combine coefficients = .ok v ∧ v.dim = f.ambientDim := by
  refine exists_foldlM_eq_ok (P := fun v : DenseVector K => v.dim = f.ambientDim) ?_
    (DenseVector.dim_zero _)
  rintro v hv ⟨d, c⟩ hmem
  have hd : d.dim = f.ambientDim := h d (List.of_mem_zip hmem).1
  dsimp only
  split_ifs with hzero
  · exact ⟨v, rfl, hv⟩
  · obtain ⟨s, hs, hdim⟩ := DenseVector.exists_add (v := v) (w := d.scale c) (by simp [hv, hd])
    exact ⟨s, hs, hdim.trans hv⟩

/-- There is a point for as many parameters as there are directions. -/
theorem exists_pointAt (h : ∀ v ∈ f.span.directions, v.dim = f.ambientDim) {params : List K}
    (hlength : params.length = f.span.size) :
    ∃ p, f.pointAt params = .ok p ∧ p.dim = f.ambientDim := by
  obtain ⟨v, hv, hdim⟩ := exists_combine h params
  rw [pointAt, if_pos hlength, hv, ok_bind]
  exact DenseVector.exists_add hdim.symm

omit [Scalar K] in
/-- The first coordinates can be read if there are so many. -/
theorem exists_initial {v : DenseVector K} {k : ℕ} (hk : k ≤ v.dim) :
    ∃ params, v.initial k = .ok params ∧ params.length = k :=
  ⟨v.entries.take k, if_pos hk, List.length_take_of_le hk⟩

/-- **The image of a flat of parameters** is a well-formed flat, if there are enough parameters. -/
theorem exists_image (hf : f.WellFormed) (hg : g.WellFormed) (hk : f.span.size ≤ g.ambientDim) :
    ∃ e, f.image g = .ok e ∧ e.ambientDim = f.ambientDim ∧ e.WellFormed := by
  obtain ⟨first, hfirst, hlength⟩ := exists_initial hk
  obtain ⟨offset, hoffset, hdim⟩ := exists_pointAt hf.dim_eq hlength
  -- the directions of the parameters are as long as their offset
  have hdirections : ∀ d ∈ g.span.directions,
      ∃ v, (d.initial f.span.size >>= f.combine) = .ok v ∧ v.dim = f.ambientDim := by
    intro d hd
    obtain ⟨params, hparams, -⟩ := exists_initial (hk.trans (hg d hd).1.ge)
    rw [hparams, ok_bind]
    exact exists_combine hf.dim_eq params
  obtain ⟨directions, hmap, hall⟩ := exists_mapM_eq_ok hdirections
  refine ⟨⟨SpanningSet.ofDirections directions, offset⟩, ?_, hdim, ?_⟩
  · rw [image]
    simp only [hfirst, ok_bind, hoffset, hmap, pure_eq_ok]
  · exact wellFormed_ofDirections fun v hv => (hall v hv).trans hdim.symm

/-! ### Differences and systems -/

theorem difference_of_ne (h : f.ambientDim ≠ g.ambientDim) :
    f.difference g = .error (.columnMismatch f.ambientDim g.ambientDim) :=
  if_neg h

theorem ambientDim_difference {d : Flat K} (h : f.difference g = .ok d) :
    d.ambientDim = f.ambientDim := by
  rw [difference] at h
  split at h
  · obtain ⟨offset, hoffset, h⟩ := bind_eq_ok.1 h
    cases h
    exact DenseVector.dim_sub hoffset
  · cases h

/-- The directions of one flat and the negated ones of another are not zero. -/
theorem isZero_of_mem_append [NegationKeepsNonzero K] (hf : f.WellFormed) (hg : g.WellFormed) :
    ∀ v ∈ f.span.directions ++ g.span.directions.map DenseVector.neg, v.isZero = false := by
  intro v hv
  rcases List.mem_append.1 hv with hv | hv
  · exact (hf v hv).2
  · obtain ⟨w, hw, rfl⟩ := List.mem_map.1 hv
    exact DenseVector.isZero_neg (hg w hw).2

/-- **No direction is lost in a difference** of well-formed flats of one space. -/
theorem exists_difference_eq [NegationKeepsNonzero K] (hf : f.WellFormed) (hg : g.WellFormed)
    (hdim : f.ambientDim = g.ambientDim) :
    ∃ offset, f.offset.sub g.offset = .ok offset ∧
      f.difference g
        = .ok ⟨⟨f.span.directions ++ g.span.directions.map DenseVector.neg⟩, offset⟩ := by
  obtain ⟨offset, hsub, -⟩ := DenseVector.exists_sub hdim
  refine ⟨offset, hsub, ?_⟩
  rw [difference, if_pos hdim]
  simp only [SpanningSet.ofDirections_eq (isZero_of_mem_append hf hg), hsub, ok_bind, pure_eq_ok]

/-- A difference has the directions of both flats, and is well-formed. -/
theorem exists_difference [NegationKeepsNonzero K] (hf : f.WellFormed) (hg : g.WellFormed)
    (hdim : f.ambientDim = g.ambientDim) :
    ∃ d, f.difference g = .ok d ∧ d.span.size = f.span.size + g.span.size ∧ d.WellFormed := by
  obtain ⟨offset, hsub, hdifference⟩ := exists_difference_eq hf hg hdim
  have hoffset : offset.dim = f.ambientDim := DenseVector.dim_sub hsub
  refine ⟨_, hdifference, by simp [SpanningSet.size], fun v hv =>
    ⟨?_, isZero_of_mem_append hf hg v hv⟩⟩
  rw [ambientDim, hoffset]
  rcases List.mem_append.1 hv with hv | hv
  · exact (hf v hv).1
  · obtain ⟨w, hw, rfl⟩ := List.mem_map.1 hv
    rw [DenseVector.dim_neg, (hg w hw).1, hdim]

/-- A flat that is returned as a difference of well-formed flats is well-formed. -/
theorem wellFormed_of_difference [NegationKeepsNonzero K] {d : Flat K} (hf : f.WellFormed)
    (hg : g.WellFormed) (h : f.difference g = .ok d) : d.WellFormed := by
  by_cases hdim : f.ambientDim = g.ambientDim
  · obtain ⟨d', hd, -, hwell⟩ := exists_difference hf hg hdim
    obtain rfl := Except.ok.inj (h.symm.trans hd)
    exact hwell
  · rw [difference_of_ne hdim] at h
    cases h

omit [Scalar K] in
/-- The columns of a system are the directions and the offset. -/
theorem system_tabulate {n d : ℕ} (D : ℕ → ℕ → K) (o : ℕ → K) :
    (tabulate n d D o).system
      = .ok ⟨DenseMatrix.tabulate d (n + 1) (Grid.augment n (fun i j => D j i) o)⟩ := by
  have hcolumns : (tabulate n d D o).span.directions ++ [(tabulate n d D o).offset]
      = (List.range (n + 1)).map fun j =>
          DenseVector.tabulate d fun i => Grid.augment n (fun i j => D j i) o i j := by
    rw [List.range_succ, List.map_append, List.map_singleton]
    congr 1
    · refine List.map_congr_left fun j hj => DenseVector.tabulate_congr fun i _ => ?_
      rw [Grid.augment, if_pos (List.mem_range.1 hj)]
    · refine congrArg (fun v => [v]) (DenseVector.tabulate_congr fun i _ => ?_)
      rw [Grid.augment, if_neg (lt_irrefl n)]
  rw [system, hcolumns, DenseMatrix.ofColumns_tabulate (Nat.succ_pos n)]
  rfl

/-- **The system of a flat exists** if the directions have the dimension of the offset. It has one
unknown for each direction. -/
theorem exists_system (h : ∀ v ∈ f.span.directions, v.dim = f.ambientDim) :
    ∃ grid, f.system = .ok ⟨DenseMatrix.tabulate f.ambientDim (f.span.size + 1) grid⟩ := by
  obtain ⟨D, o, hf⟩ := exists_tabulate h
  have hsystem := system_tabulate (n := f.span.size) (d := f.ambientDim) D o
  rw [← hf] at hsystem
  exact ⟨_, hsystem⟩

/-! ### Intersections -/

/-- The common points of which some solutions of the system of two flats are the parameters. -/
def leadBack (f : Flat K) : SolutionSet K → Except Fault (SolutionSet K)
  | .empty => .ok .empty
  | .point p => SolutionSet.point <$> (p.initial f.span.size >>= f.pointAt)
  | .space parameters => SolutionSet.space <$> f.image parameters

/-- An intersection leads the solutions of its system back. -/
theorem outcome_intersection {d : Flat K} {e : LinearSystem K} {s : SolutionSet K}
    (hd : f.difference g = .ok d) (he : system ⟨d.span, d.offset.neg⟩ = .ok e)
    (hs : e.solution.outcome = .ok s) : (f.intersection g).outcome = f.leadBack s := by
  simp only [intersection, Traced.outcome_bind, Traced.outcome_report, Traced.outcome_lift,
    ok_bind, hd, he, hs]
  cases s with
  | empty => rfl
  | point p =>
    simp only [leadBack, Traced.outcome_bind, Traced.outcome_lift]
    cases p.initial f.span.size with
    | error fault => rfl
    | ok params =>
      rw [ok_bind, ok_bind]
      cases f.pointAt params <;> rfl
  | space parameters =>
    simp only [leadBack, Traced.outcome_bind, Traced.outcome_lift]
    cases f.image parameters with
    | error fault => rfl
    | ok common =>
      rw [ok_bind, map_ok]
      split_ifs <;> rfl

/-- Nothing else than no solution leads back to no point. -/
theorem leadBack_eq_empty_iff {s t : SolutionSet K} (h : f.leadBack s = .ok t) :
    t = .empty ↔ s = .empty := by
  cases s with
  | empty => exact iff_of_true (Except.ok.inj h).symm rfl
  | point p =>
    refine iff_of_false ?_ nofun
    cases hpoint : p.initial f.span.size >>= f.pointAt with
    | error fault =>
      rw [leadBack, hpoint] at h
      cases h
    | ok x =>
      rw [leadBack, hpoint] at h
      cases h
      nofun
  | space parameters =>
    refine iff_of_false ?_ nofun
    cases himage : f.image parameters with
    | error fault =>
      rw [leadBack, himage] at h
      cases h
    | ok common =>
      rw [leadBack, himage] at h
      cases h
      nofun

/-- Flats of different spaces have no intersection. -/
theorem outcome_intersection_of_ne (h : f.ambientDim ≠ g.ambientDim) :
    (f.intersection g).outcome = .error (.columnMismatch f.ambientDim g.ambientDim) := by
  simp only [intersection, Traced.outcome_bind, Traced.outcome_report, Traced.outcome_lift,
    ok_bind, difference_of_ne h, error_bind]

/-- **Solutions lead back to common points** if they have a coordinate for each direction. -/
theorem exists_leadBack {s : SolutionSet K} {n : ℕ} (hf : f.WellFormed) (hs : s.LiesIn n)
    (hn : f.span.size ≤ n) : ∃ t, f.leadBack s = .ok t ∧ t.LiesIn f.ambientDim := by
  cases s with
  | empty => exact ⟨.empty, rfl, trivial⟩
  | point p =>
    obtain ⟨params, hparams, hlength⟩ := exists_initial (hn.trans_eq (Eq.symm hs))
    obtain ⟨q, hq, hdim⟩ := exists_pointAt hf.dim_eq hlength
    exact ⟨.point q, by rw [leadBack, hparams, ok_bind, hq, map_ok], hdim⟩
  | space parameters =>
    obtain ⟨common, hcommon, hdim, hwell⟩ := exists_image hf hs.2 (hn.trans_eq hs.1.symm)
    exact ⟨.space common, by rw [leadBack, hcommon, map_ok], hdim, hwell⟩

end Flat

end LinearSystems
