import LinearSystems.Proofs.Rational.Resolution

/-!
# The solutions of rational systems

Over the rationals the solution of a system holds all of its solutions and nothing else. Row
equivalent systems have the same solutions, and those of a reduced one can be read off: there are
none if the constants have a pivot, and otherwise the free unknowns may be chosen at will and
determine the others.

`SolutionSet.Describes` says of a solution set that it holds exactly the unknowns with a property,
and `LinearSystem.exists_describes` that the solution of a system describes its solutions, in
whatever order the terms of linear forms are visited.
-/

namespace LinearSystems

variable {r c : ℕ}

/-! ### Systems on grids -/

/-- The unknowns satisfy all equations of a system, whose constants stand in column `c`. -/
def Grid.IsSolution (r c : ℕ) (f : Grid ℚ) (x : ℕ → ℚ) : Prop :=
  ∀ i < r, ∑ j ∈ Finset.range c, f i j * x j = f i c

/-- Only the entries within the shape matter, and only the values of the unknowns of the system. -/
theorem Grid.isSolution_congr {f g : Grid ℚ} {x y : ℕ → ℚ}
    (hentries : ∀ i < r, ∀ j < c + 1, f i j = g i j) (hvalues : ∀ j < c, x j = y j) :
    f.IsSolution r c x ↔ g.IsSolution r c y := by
  refine forall_congr' fun i => forall_congr' fun hi => ?_
  have hsum : ∑ j ∈ Finset.range c, f i j * x j = ∑ j ∈ Finset.range c, g i j * y j := by
    refine Finset.sum_congr rfl fun j hj => ?_
    have hjc : j < c := Finset.mem_range.1 hj
    rw [hentries i hi j (Nat.lt_succ_of_lt hjc), hvalues j hjc]
  rw [hsum, hentries i hi c (Nat.lt_succ_self c)]

/-- The equations of a matrix with constants beside it. -/
theorem Grid.isSolution_augment_iff {f : Grid ℚ} {b x : ℕ → ℚ} :
    (f.augment c b).IsSolution r c x ↔ ∀ i < r, ∑ j ∈ Finset.range c, f i j * x j = b i := by
  refine forall_congr' fun i => forall_congr' fun _ => ?_
  have hrow : ∑ j ∈ Finset.range c, f.augment c b i j * x j
      = ∑ j ∈ Finset.range c, f i j * x j :=
    Finset.sum_congr rfl fun j hj => by rw [augment, if_pos (Finset.mem_range.1 hj)]
  rw [hrow, augment, if_neg (lt_irrefl c)]

/-- The unknowns followed by `-1`, the factor of the constants. -/
def homogenized (c : ℕ) (x : ℕ → ℚ) : Fin (c + 1) → ℚ := fun j =>
  if (j : ℕ) < c then x j else -1

/-- The equations say that the augmented matrix annihilates the unknowns followed by `-1`. -/
theorem Grid.isSolution_iff_mulVec (f : Grid ℚ) (x : ℕ → ℚ) :
    f.IsSolution r c x ↔ (f.corner r (c + 1)).mulVec (homogenized c x) = 0 := by
  have hrow : ∀ i : Fin r, (f.corner r (c + 1)).mulVec (homogenized c x) i
      = ∑ j ∈ Finset.range c, f i j * x j - f i c := by
    intro i
    simp only [Matrix.mulVec, dotProduct, Grid.corner_apply, homogenized]
    rw [← Finset.sum_range fun j => f i j * if j < c then x j else -1, Finset.sum_range_succ,
      if_neg (lt_irrefl c), mul_neg_one, ← sub_eq_add_neg]
    refine congrArg (· - f i c) (Finset.sum_congr rfl fun j hj => ?_)
    rw [if_pos (Finset.mem_range.1 hj)]
  constructor
  · intro h
    funext i
    rw [hrow, h i i.isLt, sub_self, Pi.zero_apply]
  · intro h i hi
    have hi' := congrFun h ⟨i, hi⟩
    rw [hrow, Pi.zero_apply] at hi'
    exact sub_eq_zero.1 hi'

/-- Row equivalent systems have the same solutions. -/
theorem RowEquivalent.isSolution_iff {f g : Grid ℚ}
    (h : RowEquivalent (f.corner r (c + 1)) (g.corner r (c + 1))) (x : ℕ → ℚ) :
    f.IsSolution r c x ↔ g.IsSolution r c x := by
  have hstep : ∀ {f g : Grid ℚ}, RowEquivalent (f.corner r (c + 1)) (g.corner r (c + 1)) →
      f.IsSolution r c x → g.IsSolution r c x := by
    intro f g hfg hf
    obtain ⟨P, -, hP⟩ := hfg
    rw [Grid.isSolution_iff_mulVec] at hf ⊢
    rw [hP, ← Matrix.mulVec_mulVec, hf, Matrix.mulVec_zero]
  exact ⟨hstep h, hstep h.symm⟩

/-! ### Reduced systems -/

section Reduced

variable {g : Grid ℚ} {rank : ℕ} {pivot : ℕ → ℕ}

/-- Without a pivot in the last column, the other columns are reduced as well. -/
theorem ReducedStaircase.dropColumn (h : ReducedStaircase g r (c + 1) rank pivot)
    (hlt : ∀ i < rank, pivot i < c) : ReducedStaircase g r c rank pivot :=
  ⟨h.toStaircase.dropColumn hlt, h.one, h.zero_above⟩

/-- In a reduced row, the unknown of the pivot stands beside the free ones. -/
theorem ReducedStaircase.sum_row (h : ReducedStaircase g r c rank pivot) {i : ℕ} (hi : i < rank)
    (x : ℕ → ℚ) :
    ∑ j ∈ Finset.range c, g i j * x j
      = x (pivot i) + ∑ a ∈ Finset.range (c - rank),
          g i (freeColumn c rank pivot a) * x (freeColumn c rank pivot a) := by
  rw [h.sum_columns, h.length_freeColumns]
  congr 1
  rw [Finset.sum_eq_single_of_mem i (Finset.mem_range.2 hi) fun k hk hne => ?_]
  · rw [h.entry_pivot hi (hi.trans_le h.rank_le), if_pos rfl, one_mul]
  · rw [h.entry_pivot (Finset.mem_range.1 hk) (hi.trans_le h.rank_le), if_neg hne.symm, zero_mul]

namespace Resolved

variable {forms : ℕ → LinearForm ℚ} {a : ℕ}

/-- A free unknown is its own parameter. -/
theorem form_freeColumn (hforms : Resolved 0 g c rank pivot forms)
    (ha : a < (freeColumns c rank pivot).length) :
    forms (freeColumn c rank pivot a) = .free (freeColumn c rank pivot a) :=
  hforms.free _ fun _ _ hi => pivot_ne_freeColumn ha hi

/-- The coefficients of a resolved unknown are the negated entries of its row. -/
theorem coefficient_pivot (hforms : Resolved 0 g c rank pivot forms)
    (h : ReducedStaircase g r c rank pivot) {i : ℕ} (hi : i < rank)
    (ha : a < (freeColumns c rank pivot).length) :
    (forms (pivot i)).coefficient (.free (freeColumn c rank pivot a))
      = -g i (freeColumn c rank pivot a) := by
  rw [hforms.parameter i (Nat.zero_le i) hi]
  split_ifs with hlt
  · rfl
  · -- to the left of the pivot the row is zero
    have hleft : freeColumn c rank pivot a < pivot i :=
      lt_of_le_of_ne (Nat.le_of_not_lt fun hgt => hlt ⟨hgt, freeColumn_lt ha⟩)
        (pivot_ne_freeColumn ha hi).symm
    rw [h.eq_zero_left hi _ hleft, neg_zero]

/-- The free unknowns take the values that are chosen for them. -/
theorem sum_freeColumn (hforms : Resolved 0 g c rank pivot forms) (t : ℕ → ℚ)
    (ha : a < (freeColumns c rank pivot).length) :
    (forms (freeColumn c rank pivot a)).coefficient .constant
      + ∑ b ∈ Finset.range (freeColumns c rank pivot).length, t b *
          (forms (freeColumn c rank pivot a)).coefficient (.free (freeColumn c rank pivot b))
      = t a := by
  rw [hforms.form_freeColumn ha, LinearForm.coefficient_free_constant, zero_add,
    Finset.sum_eq_single_of_mem a (Finset.mem_range.2 ha) fun b hb hne => ?_]
  · rw [LinearForm.coefficient_free_free, if_pos rfl, mul_one]
  · rw [LinearForm.coefficient_free_free, if_neg, mul_zero]
    exact fun heq => hne (freeColumn_inj (Finset.mem_range.1 hb) ha heq.symm)

/-- **The solutions of a reduced system** are the values of its forms, with the values of the free
unknowns as parameters. -/
theorem isSolution_iff (hforms : Resolved 0 g c rank pivot forms)
    (h : ReducedStaircase g r c rank pivot) (hzero : ∀ i, rank ≤ i → i < r → g i c = 0)
    (x : ℕ → ℚ) :
    g.IsSolution r c x ↔ ∀ l < c, x l = (forms l).coefficient .constant
      + ∑ a ∈ Finset.range (freeColumns c rank pivot).length, x (freeColumn c rank pivot a) *
          (forms l).coefficient (.free (freeColumn c rank pivot a)) := by
  -- the value of the form of a pivot is what its row demands
  have hpivot : ∀ i < rank, (forms (pivot i)).coefficient .constant
      + ∑ a ∈ Finset.range (freeColumns c rank pivot).length, x (freeColumn c rank pivot a) *
          (forms (pivot i)).coefficient (.free (freeColumn c rank pivot a))
      = g i c - ∑ a ∈ Finset.range (c - rank),
          g i (freeColumn c rank pivot a) * x (freeColumn c rank pivot a) := by
    intro i hi
    rw [hforms.constant i (Nat.zero_le i) hi, sub_eq_add_neg, ← Finset.sum_neg_distrib,
      ← h.length_freeColumns]
    refine congrArg (g i c + ·) (Finset.sum_congr rfl fun a ha => ?_)
    rw [hforms.coefficient_pivot h hi (Finset.mem_range.1 ha), mul_neg, mul_comm]
  constructor
  · intro hx l hl
    rcases exists_pivot_or_free rank pivot l with ⟨i, hi, rfl⟩ | hfree
    · -- the row of the pivot gives its unknown
      have hrow := hx i (hi.trans_le h.rank_le)
      rw [h.sum_row hi] at hrow
      rw [hpivot i hi, ← hrow, add_sub_cancel_right]
    · obtain ⟨a, ha, rfl⟩ := exists_freeColumn hl hfree
      exact (hforms.sum_freeColumn (fun b => x (freeColumn c rank pivot b)) ha).symm
  · intro hx i hir
    rcases Nat.lt_or_ge i rank with hi | hbelow
    · rw [h.sum_row hi, hx (pivot i) (h.pivot_lt i hi), hpivot i hi, sub_add_cancel]
    · -- a row without a pivot demands that zero be zero
      rw [hzero i hbelow hir]
      refine Finset.sum_eq_zero fun j hj => ?_
      rw [Rational.isZero_iff.1 (h.zero_below i hbelow hir j (Finset.mem_range.1 hj)), zero_mul]

end Resolved

end Reduced

/-! ### The solution of a system -/

/-- A solution set holds exactly the unknowns with a property. A flat has one parameter for each
of some chosen unknowns, of which there are `k`, and the parameters are their values. -/
inductive SolutionSet.Describes (c k : ℕ) (P : (ℕ → ℚ) → Prop) : SolutionSet ℚ → Prop
  | empty (hnone : ∀ x, ¬P x) : Describes c k P .empty
  | point (y : ℕ → ℚ) (honly : ∀ x, P x ↔ ∀ l < c, x l = y l) :
    Describes c k P (.point (DenseVector.tabulate c y))
  | space (chosen : ℕ → ℕ) (directions : ℕ → ℕ → ℚ) (offset : ℕ → ℚ) (hpos : 0 < k)
    (hchosen : ∀ a < k, chosen a < c)
    (hfree : ∀ t : ℕ → ℚ, ∀ a < k, offset (chosen a)
      + ∑ b ∈ Finset.range k, t b * directions b (chosen a) = t a)
    (hall : ∀ x, P x ↔ ∀ l < c, x l = offset l
      + ∑ b ∈ Finset.range k, x (chosen b) * directions b l) :
    Describes c k P (.space (Flat.tabulate k c directions offset))

namespace SolutionSet.Describes

variable {k : ℕ} {P : (ℕ → ℚ) → Prop}

/-- A point is the only vector that is described. -/
theorem iff_eq_point {p : DenseVector ℚ} (h : Describes c k P (.point p)) (x : DenseVector ℚ) :
    (x.dim = c ∧ P x.entry) ↔ x = p := by
  cases h with
  | point y honly => rw [honly, DenseVector.eq_tabulate_iff]

/-- A flat has the expected number of directions. -/
theorem size_span {f : Flat ℚ} (h : Describes c k P (.space f)) : f.span.size = k ∧ 0 < k := by
  cases h with
  | space chosen directions offset hpos hchosen hfree hall =>
    exact ⟨Flat.size_span_tabulate directions offset, hpos⟩

/-- Nothing is described by the empty set alone. -/
theorem eq_empty_iff {s : SolutionSet ℚ} (h : Describes c k P s) :
    s = .empty ↔ ¬∃ x : DenseVector ℚ, x.dim = c ∧ P x.entry := by
  cases h with
  | empty hnone => exact ⟨fun _ ⟨x, _, hx⟩ => hnone x.entry hx, fun _ => rfl⟩
  | point y honly =>
    refine ⟨nofun, fun hnone => absurd ?_ hnone⟩
    exact ⟨_, (iff_eq_point (.point (k := k) y honly) _).2 rfl⟩
  | space chosen directions offset hpos hchosen hfree hall =>
    refine ⟨nofun, fun hnone => absurd ?_ hnone⟩
    have hpoint := Flat.pointAt_tabulate (k := k) (d := c) directions offset fun _ => 0
    obtain ⟨-, hdim, hentry⟩ := (Flat.pointAt_eq_ok_iff_of_chosen hchosen hfree).1 hpoint
    exact ⟨_, hdim, (hall _).2 hentry⟩

/-- What a flat describes are the values for all choices of the parameters. -/
theorem iff_exists_parameters {chosen : ℕ → ℕ} {directions : ℕ → ℕ → ℚ} {offset : ℕ → ℚ}
    (hchosen : ∀ a < k, chosen a < c)
    (hfree : ∀ t : ℕ → ℚ, ∀ a < k, offset (chosen a)
      + ∑ b ∈ Finset.range k, t b * directions b (chosen a) = t a)
    (hall : ∀ x, P x ↔ ∀ l < c, x l = offset l
      + ∑ b ∈ Finset.range k, x (chosen b) * directions b l) (x : ℕ → ℚ) :
    P x ↔ ∃ t : ℕ → ℚ, ∀ l < c, x l = offset l + ∑ b ∈ Finset.range k, t b * directions b l := by
  rw [hall]
  constructor
  · intro hx
    exact ⟨fun b => x (chosen b), hx⟩
  · rintro ⟨t, ht⟩ l hl
    have hvalue : ∀ b ∈ Finset.range k, x (chosen b) * directions b l = t b * directions b l := by
      intro b hb
      have hlt := Finset.mem_range.1 hb
      rw [ht _ (hchosen b hlt), hfree t b hlt]
    rw [ht l hl, Finset.sum_congr rfl hvalue]

end SolutionSet.Describes

namespace LinearSystem

open DenseMatrix

variable {f : Grid ℚ} {rank : ℕ} {pivot : ℕ → ℕ}

/-- A pivot among the constants demands that zero be one. -/
theorem not_isSolution_of_pivot_eq
    (h : Staircase (f.reduced r (c + 1)) r (c + 1) (rank + 1) pivot) (hlast : pivot rank = c)
    (x : ℕ → ℚ) : ¬f.IsSolution r c x := by
  rw [(rowEquivalent_reduced r (c + 1) f).isSolution_iff]
  intro hx
  have hlt : rank < rank + 1 := Nat.lt_succ_self rank
  -- the row of the last pivot has no coefficients, but a constant
  have hleft : ∀ j ∈ Finset.range c, f.reduced r (c + 1) rank j * x j = 0 := fun j hj => by
    rw [h.eq_zero_left hlt j (by rw [hlast]; exact Finset.mem_range.1 hj), zero_mul]
  have hrow := hx rank h.rank_le
  rw [Finset.sum_eq_zero hleft] at hrow
  refine h.pivot_ne_zero hlt ?_
  rw [hlast, ← hrow]

/-- If every unknown has a pivot, the coefficients are reduced to the identity. -/
theorem isIdentity_iff {g : Grid ℚ} (h : ReducedStaircase g r c rank pivot) :
    c ≤ r ∧ (tabulate r c g).isIdentity = true ↔ rank = c := by
  rw [isIdentity_tabulate]
  constructor
  · rintro ⟨hcr, hone⟩
    refine le_antisymm h.rank_le_ncols (Nat.le_of_not_lt fun hlt => ?_)
    -- row `rank` would be zero, but has a one on the diagonal
    have hrow := hone rank (hlt.trans_le hcr) rank hlt
    rw [if_pos rfl, Rational.isOne_iff] at hrow
    have hzero := h.zero_below rank le_rfl (hlt.trans_le hcr) rank hlt
    rw [Rational.isZero_iff, hrow] at hzero
    exact one_ne_zero hzero
  · rintro rfl
    refine ⟨h.rank_le, fun i hi j hj => ?_⟩
    have hentry := h.entry_pivot hj hi
    rw [h.pivot_eq_self hj] at hentry
    split_ifs with hij
    · rw [Rational.isOne_iff, hentry, if_pos hij]
    · rw [Rational.isZero_iff, hentry, if_neg hij]

/-- A reduced system is inconsistent and has no solution, or it is a reduced staircase without a
pivot among the constants. -/
theorem inspect_reduced (r c : ℕ) (f : Grid ℚ) :
    (inspect (tabulate r c (f.reduced r (c + 1)))
        (DenseVector.tabulate r fun i => f.reduced r (c + 1) i c) 0 0 r
        = .ok (.inconsistent (Sweep.after r f c).rank) ∧ ∀ x, ¬f.IsSolution r c x) ∨
    (inspect (tabulate r c (f.reduced r (c + 1)))
        (DenseVector.tabulate r fun i => f.reduced r (c + 1) i c) 0 0 r
        = .ok (.consistent (Sweep.after r f c).rank) ∧
      ∃ pivot, ReducedStaircase (f.reduced r (c + 1)) r (c + 1) (Sweep.after r f c).rank pivot ∧
        ∀ i < (Sweep.after r f c).rank, pivot i < c) := by
  obtain ⟨pivot, ⟨hafter, hlt, -⟩ | ⟨hafter, hlast⟩⟩ := Sweep.exists_staircase_succ r c f
  · have hwide : ReducedStaircase (f.reduced r (c + 1)) r (c + 1) (Sweep.after r f c).rank pivot :=
      hafter.reducedStaircase_reduceRows
    exact Or.inr ⟨inspect_of_pivot_lt hwide.toStaircase hlt, pivot, hwide, hlt⟩
  · have hwide : Staircase (f.reduced r (c + 1)) r (c + 1) ((Sweep.after r f c).rank + 1) pivot :=
      hafter.reduceRows le_rfl
    exact Or.inl ⟨inspect_of_pivot_eq hwide hlast, not_isSolution_of_pivot_eq hwide hlast⟩

variable {visit : LinearForm ℚ → List (Parameter × ℚ)}

/-- **The solution of a rational system describes its solutions**, in whatever order the terms of
linear forms are visited. The parameters are as many as the rank of the coefficients falls short
of the number of unknowns. -/
theorem exists_describes (hvisit : ∀ form, (visit form).Perm form.terms) (r c : ℕ) (f : Grid ℚ) :
    ∃ s, (solutionVia visit ⟨tabulate r (c + 1) f⟩).outcome = .ok s ∧
      s.Describes c (c - (Sweep.after r f c).rank) (f.IsSolution r c) := by
  rcases inspect_reduced r c f with ⟨hverdict, hnone⟩ | ⟨hverdict, pivot, hwide, hlt⟩
  · exact ⟨.empty, solutionVia_of_inconsistent visit hverdict, .empty hnone⟩
  · have h := hwide.dropColumn hlt
    have hforms := Resolved.all hvisit h
    have hzero : ∀ i, (Sweep.after r f c).rank ≤ i → i < r → f.reduced r (c + 1) i c = 0 :=
      fun i hi hr => Rational.isZero_iff.1 (hwide.zero_below i hi hr c (Nat.lt_succ_self c))
    have hsolution := fun x =>
      ((rowEquivalent_reduced r (c + 1) f).isSolution_iff x).trans (hforms.isSolution_iff h hzero x)
    have houtcome := solutionVia_of_consistent visit hverdict
    by_cases hfull : (Sweep.after r f c).rank = c
    · -- every unknown has a pivot, so nothing is free and the constants are the solution
      rw [if_pos ((isIdentity_iff h).2 hfull)] at houtcome
      refine ⟨_, houtcome, .point _ fun x => ?_⟩
      have hdiagonal : ∀ l < c, pivot l = l := by
        intro l hl
        have hsquare := h.toStaircase
        rw [hfull] at hsquare
        exact hsquare.pivot_eq_self hl
      rw [hsolution x]
      refine forall_congr' fun l => forall_congr' fun hl => ?_
      have hconstant := hforms.constant l (Nat.zero_le l) (hfull.symm ▸ hl)
      rw [hdiagonal l hl] at hconstant
      rw [hconstant, h.length_freeColumns, hfull, Nat.sub_self, Finset.sum_range_zero, add_zero]
    · -- the free unknowns are the parameters of the flat
      rw [if_neg (mt (isIdentity_iff h).1 hfull),
        (Parametrized.all hvisit h.toStaircase).flatOfForms_eq_tabulate] at houtcome
      have hlength := h.length_freeColumns
      have hle := h.rank_le_ncols
      refine ⟨_, houtcome, ?_⟩
      rw [← hlength]
      exact .space (freeColumn c (Sweep.after r f c).rank pivot) _ _ (by omega)
        (fun a ha => freeColumn_lt ha) (fun t a ha => hforms.sum_freeColumn t ha) hsolution

/-- A system has solutions or none, and the answer says which. -/
theorem exists_solution_ne_empty_iff (f : Grid ℚ) (b : ℕ → ℚ) :
    ∃ s, (solution ⟨tabulate r (c + 1) (f.augment c b)⟩).outcome = .ok s ∧
      (s ≠ .empty ↔ ∃ t : ℕ → ℚ, ∀ i < r, ∑ j ∈ Finset.range c, t j * f i j = b i) := by
  obtain ⟨s, hs, hdescribes⟩ :=
    exists_describes (fun form => List.Perm.refl form.terms) r c (f.augment c b)
  refine ⟨s, hs, ?_⟩
  simp only [ne_eq, hdescribes.eq_empty_iff, not_not, Grid.isSolution_augment_iff, mul_comm (f _ _)]
  constructor
  · rintro ⟨x, -, hx⟩
    exact ⟨x.entry, hx⟩
  · rintro ⟨t, ht⟩
    refine ⟨DenseVector.tabulate c t, DenseVector.dim_tabulate t, fun i hi => ?_⟩
    rw [← ht i hi]
    refine Finset.sum_congr rfl fun j hj => ?_
    rw [DenseVector.entry_tabulate t (Finset.mem_range.1 hj)]

end LinearSystem

end LinearSystems
