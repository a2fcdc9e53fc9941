import LinearSystems.Proofs.LinearSystem.FreeUnknowns
import LinearSystems.Proofs.Binary.Scalar

/-!
# The general case of a solution, for scalars without laws

If the solution of a system is a flat, it has one direction for each column without a pivot, and
each direction can be told by the one in its own column (`Flat.ParametrizedBy`). The number of the
directions and the rank are reported when the search ends, and the former is what the latter leaves
over (`space_parametrizedBy_free_columns`). The scalars may be floating-point numbers with NaNs and
infinities among the coefficients: of the arithmetic it is only used that zero counts as zero and
one does not.
-/

namespace LinearSystems

variable {K : Type} [Scalar K] {r c : ℕ} {rank : ℕ} {pivot : ℕ → ℕ}

/-! ### The free columns -/

/-- The free columns are those that are not among the pivots. -/
theorem filter_notMem_pivots (c rank : ℕ) (pivot : ℕ → ℕ) :
    (List.range c).filter (fun j => decide (j ∉ (List.range rank).map pivot))
      = freeColumns c rank pivot := by
  refine List.filter_congr fun j _ => decide_eq_decide.2 ?_
  simp only [List.mem_map, List.mem_range, not_exists, not_and]

namespace LinearSystem

open DenseMatrix

variable {visit : LinearForm K → List (Parameter × K)}

/-! ### What is reported -/

/-- In the general case, the last diagnostic tells the rank that was counted and the number of the
directions. -/
theorem getLast?_log_solutionVia {f : Grid K}
    (h : inspect (tabulate r c (f.reduced r (c + 1)))
      (DenseVector.tabulate r fun i => f.reduced r (c + 1) i c) 0 0 r = .ok (.consistent rank))
    (hgeneral : ¬(c ≤ r ∧ (tabulate r c (f.reduced r (c + 1))).isIdentity = true)) :
    (solutionVia visit ⟨tabulate r (c + 1) f⟩).log.getLast?
      = some (.parametrizedSolution rank (flatOfForms ((List.range c).map
          ((f.reduced r (c + 1)).resolveRows visit c LinearForm.free r))).span.size) := by
  rw [solutionVia, solutionWith, Traced.log_bind_of_ok (Traced.outcome_report _),
    Traced.log_bind_of_ok (reducedRowEchelonForm_tabulate f)]
  simp only [nvars, ncols_tabulate, nrows_tabulate, Nat.add_sub_cancel, splitAtCol_augmented,
    Traced.lift_ok, pure_bind, toList_column, h, if_neg hgeneral, resolve_tabulate]
  rw [Traced.log_bind_of_ok (Traced.outcome_report _), Traced.log_report, Traced.log_report,
    Traced.log_pure, List.append_nil, ← List.append_assoc, List.getLast?_concat]

end LinearSystem

/-! ### Directions -/

/-- The directions of a flat belong to some columns, one to each: a direction has one in its own
column, and what it has in the others counts as zero. So does what the offset has there. -/
def Flat.ParametrizedBy (columns : List ℕ) (f : Flat K) : Prop :=
  List.Forall₂ (fun j d => d.get j = .ok Scalar.one ∧
      ∀ l ∈ columns, l ≠ j → ∃ z, d.get l = .ok z ∧ Scalar.isZero z = true)
    columns f.span.directions ∧
  ∀ j ∈ columns, ∃ z, f.offset.get j = .ok z ∧ Scalar.isZero z = true

variable [ZeroCountsAsZero K] [OneIsNonzero K]

/-- The flat of the resolved forms is parametrized by the free columns. -/
theorem Parametrized.parametrizedBy {forms : ℕ → LinearForm K}
    (hforms : Parametrized 0 rank pivot forms) (c : ℕ) :
    (LinearSystem.flatOfForms ((List.range c).map forms)).ParametrizedBy
      (freeColumns c rank pivot) := by
  have hfree : ∀ j ∈ freeColumns c rank pivot, j < c ∧ forms j = .free j := by
    intro j hj
    obtain ⟨hjc, hne⟩ := mem_freeColumns.1 hj
    exact ⟨hjc, hforms.free j fun i _ => hne i⟩
  rw [hforms.flatOfForms_eq]
  refine ⟨?_, fun j hj => ?_⟩
  · rw [List.forall₂_map_right_iff, List.forall₂_same]
    intro j hj
    obtain ⟨hjc, hform⟩ := hfree j hj
    refine ⟨?_, fun l hl hne => ?_⟩
    · rw [DenseVector.get_tabulate _ hjc, hform, LinearForm.coefficient_free_self]
    · obtain ⟨hlc, hlform⟩ := hfree l hl
      refine ⟨_, DenseVector.get_tabulate _ hlc, ?_⟩
      rw [hlform, LinearForm.coefficient_free_of_ne fun heq => hne (Parameter.free.inj heq).symm]
      exact isZero_zero
  · obtain ⟨hjc, hform⟩ := hfree j hj
    have hne : Parameter.constant ≠ .free j := by simp
    refine ⟨_, DenseVector.get_tabulate _ hjc, ?_⟩
    rw [hform, LinearForm.coefficient_free_of_ne hne]
    exact isZero_zero

namespace LinearSystem

open Binary DenseMatrix

variable {visit : LinearForm K → List (Parameter × K)}

/-- The solution of a tabulated system, with the rank and the pivots of its coefficients. -/
theorem exists_solutionVia_tabulate (hvisit : ∀ form, (visit form).Perm form.terms) (r c : ℕ)
    (f : Grid K) :
    ∃ s pivot, (solutionVia visit ⟨tabulate r (c + 1) f⟩).outcome = .ok s ∧
      Staircase (Sweep.after r f c).grid r c (Sweep.after r f c).rank pivot ∧
      ∀ flat, s = .space flat →
        flat.span.size = c - (Sweep.after r f c).rank ∧
        (solutionVia visit ⟨tabulate r (c + 1) f⟩).log.getLast?
          = some (.parametrizedSolution (Sweep.after r f c).rank flat.span.size) ∧
        flat.ParametrizedBy (freeColumns c (Sweep.after r f c).rank pivot) := by
  obtain ⟨pivot, hafter, hverdict | ⟨hverdict, hreduced⟩⟩ := exists_staircase_inspect r c f
  · exact ⟨.empty, pivot, solutionVia_of_inconsistent visit hverdict, hafter, nofun⟩
  · refine ⟨_, pivot, solutionVia_of_consistent visit hverdict, hafter, fun flat hflat => ?_⟩
    split_ifs at hflat with hpoint
    -- the general case
    obtain rfl := SolutionSet.space.inj hflat
    have hforms := Parametrized.all hvisit hreduced
    refine ⟨?_, getLast?_log_solutionVia hverdict hpoint, hforms.parametrizedBy c⟩
    rw [hforms.flatOfForms_eq_tabulate, Flat.size_span_tabulate, hafter.length_freeColumns]

/-- **In the general case there is one direction for each free column**, for scalars without laws.
There is a system exactly if the right-hand side fits and its column can be counted. If the
solution of `a * x = b` is a flat, its directions are as many as the rank of `a` falls short of the
number of unknowns, and this is what is reported at the end; the `k`-th of them has one in the
`k`-th column without a pivot and counts as zero in the others, and the offset counts as zero in all
of them. The order in which the terms of linear forms are visited plays no part. -/
theorem space_parametrizedBy_free_columns {a : DenseMatrix K} (h : a.WellFormed)
    {b : DenseVector K} (hvisit : ∀ form, (visit form).Perm form.terms) :
    ((∃ e, LinearSystem.of a b = .ok e) ↔
      b.dim = a.nrows ∧ (a.nrows = 0 → a.ncols < columnLimit)) ∧
    ∀ e, LinearSystem.of a b = .ok e → ∃ s rank pivots, (e.solutionVia visit).outcome = .ok s ∧
      a.rank.outcome = .ok rank ∧ a.pivotColumns.outcome = .ok pivots ∧
      ∀ f, s = .space f →
        rank ≤ e.nvars ∧ f.span.size = e.nvars - rank ∧
        (e.solutionVia visit).log.getLast? = some (.parametrizedSolution rank f.span.size) ∧
        f.ParametrizedBy ((List.range a.ncols).filter fun j => j ∉ pivots) := by
  refine ⟨exists_of_iff h, fun e he => ?_⟩
  obtain ⟨hdim, hroom⟩ := (exists_of_iff h).1 ⟨e, he⟩
  obtain ⟨r, c, f, rfl⟩ : ∃ r c, ∃ f : Grid K, a = tabulate r c f :=
    ⟨_, _, _, eq_tabulate_entry h rfl rfl⟩
  obtain ⟨y, rfl⟩ : ∃ y, b = DenseVector.tabulate r y := ⟨_, DenseVector.eq_tabulate_entry hdim⟩
  obtain ⟨s, pivot, hs, hafter, hspace⟩ :=
    exists_solutionVia_tabulate hvisit r c (f.augment c y)
  -- the coefficients are the augmented matrix without its last column
  have hrank := rank_tabulate (r := r) (c := c) (f.augment c y)
  have hpivots := pivotColumns_tabulate hafter
  rw [tabulate_augment] at hrank hpivots
  obtain rfl := Except.ok.inj ((of_tabulate hroom f y).symm.trans he)
  refine ⟨s, _, _, hs, hrank, hpivots, fun flat hflat => ?_⟩
  rw [ncols_tabulate, filter_notMem_pivots]
  exact ⟨hafter.rank_le_ncols, hspace flat hflat⟩

/-- A NaN is a pivot like any other: the equation `NaN * x + y = NaN` has a line of solutions, with
`y` as its parameter. -/
theorem space_of_nan_equation :
    let a : DenseMatrix (Binary binary64) := ⟨1, 2, #[nan, one]⟩
    ∃ e f, LinearSystem.of a ⟨[nan]⟩ = .ok e ∧ e.solution.outcome = .ok (.space f) ∧
      f.span.size = 1 ∧ f.ParametrizedBy [1] := by
  intro a
  let m : DenseMatrix (Binary binary64) := ⟨1, 3, #[nan, one, nan]⟩
  have hsystem : LinearSystem.of a ⟨[nan]⟩ = .ok ⟨m⟩ := by decide +kernel
  obtain ⟨s, rank, pivots, hs, hrank, hpivots, hspace⟩ := (space_parametrizedBy_free_columns
    (a := a) (by decide) fun form => List.Perm.refl form.terms).2 _ hsystem
  have hechelon : a.rowEchelonForm.outcome = .ok a := by decide +kernel
  have hcolumns : a.pivotColumns.outcome = .ok [0] := by
    rw [pivotColumns, Traced.outcome_bind, hechelon, ok_bind, Traced.outcome_pure, rowChunks]
    simp only [a, chunks]
    decide +kernel
  obtain rfl : rank = 1 := Except.ok.inj (hrank.symm.trans (by decide +kernel))
  obtain rfl : pivots = [0] := Except.ok.inj (hpivots.symm.trans hcolumns)
  -- the system is consistent, and has more unknowns than equations
  have hverdict : inspect (tabulate 1 2 (m.entry.reduced 1 3))
      (DenseVector.tabulate 1 fun i => m.entry.reduced 1 3 i 2) 0 0 1 = .ok (.consistent 1) := by
    decide +kernel
  have hflat := solutionVia_of_consistent LinearForm.terms hverdict
  rw [if_neg (by decide), tabulate_entry (m := m) (by decide)] at hflat
  obtain rfl := Except.ok.inj (hs.symm.trans hflat)
  obtain ⟨-, hsize, -, hdirections⟩ := hspace _ rfl
  exact ⟨_, _, hsystem, hs, hsize, hdirections⟩

end LinearSystem

end LinearSystems
