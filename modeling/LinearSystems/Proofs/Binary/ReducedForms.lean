import LinearSystems.Proofs.Binary.Arithmetic
import LinearSystems.Proofs.Elimination.EchelonForm
import LinearSystems.Proofs.Elimination.FixedPoints

/-!
# Reduced forms of floating-point matrices

Back-substitution writes zeros above the pivots, from the last row upwards, and then goes on to
multiply them: a row is scaled by the reciprocal of its pivot, and multiples of it are subtracted
from the rows above. A product of zero is zero if the other factor is a number, and a NaN otherwise,
and what is no number stays none. So an entry above a pivot is a zero or no number at all
(`IsVacant`), and the reduced form is reduced exactly if every factor was a number (`IsFinite`).

The factors can be read off the echelon form: a row changes only to the right of the pivots that
were visited, so each pivot, and what stands above it, is still there when its row is reduced. The
last pivot does not matter, because nothing was cleared before its row.

* `cleared_reduceRow_iff` is one row, and `cleared_reduceRows_iff` the run.
* `isReducedRowEchelon_reduced_iff`: the reduced form passes the test exactly if the factors are
  finite, and so does it equal its own reduced form.

A matrix of finite entries may have a pivot without a finite reciprocal
(`not_reduced_of_tiny_pivot`).
-/

namespace LinearSystems

namespace Binary

variable {φ : BinaryFormat} {x y : Binary φ}

/-! ### Zeros and what becomes of them -/

/-- Neither an infinity nor a NaN. -/
def IsFinite (x : Binary φ) : Prop :=
  x.value?.isSome = true

instance (x : Binary φ) : Decidable x.IsFinite :=
  inferInstanceAs (Decidable (x.value?.isSome = true))

/-- A zero, or no number. -/
def IsVacant (x : Binary φ) : Prop :=
  x.isZero = true ∨ x.value? = none

theorem isFinite_of_isZero (h : x.isZero = true) : x.IsFinite := by
  rw [IsFinite, value?_eq_some_zero_iff.mpr h]
  rfl

/-- A vacant element times any other. -/
theorem IsVacant.mul (hφ : 0 < φ.exponentBias) (hx : x.IsVacant) (y : Binary φ) :
    (x.mul y).IsVacant ∧ ((x.mul y).isZero = true ↔ x.isZero = true ∧ y.IsFinite) := by
  simp only [IsVacant, IsFinite, ← value?_eq_some_zero_iff, value?_mul hφ] at hx ⊢
  obtain hx | hx := hx
  · cases hy : y.value? with
    | none => simp [hx]
    | some b => simp [hx, nearest?_zero]
  · simp [hx]

/-- The difference of two vacant elements. -/
theorem IsVacant.sub (hφ : 0 < φ.exponentBias) (hx : x.IsVacant) (hy : y.IsVacant) :
    (x.sub y).IsVacant ∧ ((x.sub y).isZero = true ↔ x.isZero = true ∧ y.isZero = true) := by
  simp only [IsVacant, ← value?_eq_some_zero_iff, value?_sub hφ] at hx hy ⊢
  obtain hx | hx := hx
  · obtain hy | hy := hy
    · simp [hx, hy, nearest?_zero]
    · simp [hx, hy]
  · simp [hx]

theorem IsVacant.subMul (hφ : 0 < φ.exponentBias) (hx : x.IsVacant) (hy : y.IsVacant)
    (z : Binary φ) : (Scalar.subMul x y z).IsVacant ∧
      ((Scalar.subMul x y z).isZero = true ↔ x.isZero = true ∧ y.isZero = true ∧ z.IsFinite) := by
  obtain ⟨hproduct, hzero⟩ := hy.mul hφ z
  rw [← hzero]
  exact hx.sub hφ hproduct

end Binary

open Binary

/-! ### One row of back-substitution -/

/-- Reducing a row changes nothing to the left of its pivot. -/
theorem Staircase.reduceRow_of_lt_pivot {K : Type} [Scalar K] {r c rank i b : ℕ} {pivot : ℕ → ℕ}
    {f : Grid K} (h : Staircase f r c rank pivot) (hi : i < rank) (hb : b < pivot i) (k : ℕ) :
    f.reduceRow c i k b = f k b := by
  have hnormal : f.normalizeRow i (pivot i) k b = f k b := by
    rcases eq_or_ne k i with rfl | hk
    · exact Grid.normalizeRow_of_lt f k hb
    · rw [Grid.normalizeRow_of_ne hk]
  rw [h.reduceRow_of_lt hi, Grid.clearAbove]
  split_ifs
  · rw [Grid.cancel_of_lt hb, hnormal]
  · exact hnormal

variable {φ : BinaryFormat} {r c rank n : ℕ} {pivot : ℕ → ℕ} {f : Grid (Binary φ)}

/-- Above the pivots from row `n` on, all entries are vacant. -/
def VacantFrom (n : ℕ) (f : Grid (Binary φ)) (rank : ℕ) (pivot : ℕ → ℕ) : Prop :=
  ∀ i, n ≤ i → i < rank → ∀ k < i, (f k (pivot i)).IsVacant

/-- Above the pivots from row `n` on, all entries are zeros. -/
def ClearedFrom (n : ℕ) (f : Grid (Binary φ)) (rank : ℕ) (pivot : ℕ → ℕ) : Prop :=
  ∀ i, n ≤ i → i < rank → ∀ k < i, (f k (pivot i)).isZero = true

/-- The factors of row `n` are finite: the reciprocal of its pivot, and what stands above it. -/
def FactorsFinite (f : Grid (Binary φ)) (pivot : ℕ → ℕ) (n : ℕ) : Prop :=
  (Scalar.inv (f n (pivot n))).IsFinite ∧ ∀ k < n, (f k (pivot n)).IsFinite

/-- To the right of the pivot, a vacant entry of the row is multiplied by the reciprocal. (A pivot
that is one is its own reciprocal.) -/
theorem IsVacant.normalizeRow (hφ : 0 < φ.exponentBias)
    (hone : (Scalar.inv (one : Binary φ)).IsFinite) {i j b : ℕ} (hb : j < b)
    (hvacant : (f i b).IsVacant) :
    (f.normalizeRow i j i b).IsVacant ∧ ((f.normalizeRow i j i b).isZero = true ↔
      (f i b).isZero = true ∧ (Scalar.inv (f i j)).IsFinite) := by
  rw [Grid.normalizeRow]
  split_ifs with hpivot
  · rw [isOne_iff.mp hpivot]
    exact ⟨hvacant, (and_iff_left hone).symm⟩
  · rw [Function.update_self, if_neg (Nat.lt_asymm hb), if_neg (Nat.ne_of_gt hb)]
    exact hvacant.mul hφ _

/-- To the right of a cancelled entry that is not zero, the vacant entry of the source row is
multiplied by the factor. -/
theorem IsVacant.cancel (hφ : 0 < φ.exponentBias) {col b : ℕ} (hb : col < b) (factor : Binary φ)
    {source row : ℕ → Binary φ} (hsource : (source b).IsVacant) (hrow : (row b).IsVacant) :
    (Grid.cancel col factor source row b).IsVacant ∧
      ((Grid.cancel col factor source row b).isZero = true ↔ (row b).isZero = true ∧
        ((row col).isZero = true ∨ (source b).isZero = true ∧ factor.IsFinite)) := by
  by_cases hzero : (row col).isZero = true
  · rw [Grid.cancel_of_isZero hzero]
    exact ⟨hrow, (and_iff_left (Or.inl hzero)).symm⟩
  · have hwritten : ¬(Scalar.isZero (row col) || decide (b < col)) = true := by
      rw [decide_eq_false (Nat.lt_asymm hb), Bool.or_false]
      exact hzero
    rw [Grid.cancel, if_neg hwritten, if_neg (Nat.ne_of_gt hb), or_iff_right hzero]
    exact hrow.subMul hφ hsource factor

/-- An entry above a pivot, when a row above that pivot is reduced. If it is a zero afterwards, then
it was one before, and it was not multiplied by an infinity or a NaN. -/
theorem isVacant_reduceRow (hφ : 0 < φ.exponentBias) (hone : (Scalar.inv (one : Binary φ)).IsFinite)
    (h : Staircase f r c rank pivot) (hvacant : VacantFrom (n + 1) f rank pivot) {i k : ℕ}
    (hni : n < i) (hi : i < rank) (hk : k < i) :
    (f.reduceRow c n k (pivot i)).IsVacant ∧
      ((f.reduceRow c n k (pivot i)).isZero = true → (f k (pivot i)).isZero = true ∧
        (k = n → (Scalar.inv (f n (pivot n))).IsFinite) ∧ (k < n → (f k (pivot n)).IsFinite)) ∧
      ((f k (pivot i)).isZero = true → (f n (pivot i)).isZero = true → FactorsFinite f pivot n →
        (f.reduceRow c n k (pivot i)).isZero = true) := by
  have hright : pivot n < pivot i := h.pivot_lt_pivot n i hni hi
  have hreduce := h.reduceRow_of_lt (hni.trans hi)
  obtain ⟨hsource, hscaled⟩ := IsVacant.normalizeRow hφ hone hright (hvacant i hni hi n hni)
  rcases Nat.lt_trichotomy k n with hkn | rfl | hkn
  · -- a multiple of the scaled row is subtracted
    obtain ⟨hcancel, hzero⟩ := IsVacant.cancel hφ hright (f k (pivot n)) hsource
      (hvacant i hni hi k hk)
    rw [hreduce, Grid.clearAbove, if_pos hkn, Grid.normalizeRow_of_ne hkn.ne, hzero]
    refine ⟨hcancel, fun hafter => ⟨hafter.1, fun heq => absurd heq hkn.ne, fun _ =>
      hafter.2.elim isFinite_of_isZero And.right⟩, fun hrow hpivot hfactors => ⟨hrow, Or.inr ?_⟩⟩
    exact ⟨hscaled.mpr ⟨hpivot, hfactors.1⟩, hfactors.2 k hkn⟩
  · -- the row itself is scaled
    rw [hreduce, Grid.clearAbove, if_neg (Nat.lt_irrefl k), hscaled]
    exact ⟨hsource, fun hafter => ⟨hafter.1, fun _ => hafter.2, fun hlt =>
      absurd hlt (Nat.lt_irrefl k)⟩, fun hrow _ hfactors => ⟨hrow, hfactors.1⟩⟩
  · -- the rows below are left alone
    rw [Grid.reduceRow_of_lt f c hkn]
    exact ⟨hvacant i hni hi k hk, fun hafter => ⟨hafter, fun heq => absurd heq hkn.ne',
      fun hlt => absurd hlt hkn.asymm⟩, fun hrow _ _ => hrow⟩

/-- **One row.** Vacant entries remain vacant. They are zeros afterwards exactly if they were before
and the factors of the row are finite, provided that there is a pivot below. -/
theorem cleared_reduceRow_iff (hφ : 0 < φ.exponentBias)
    (hone : (Scalar.inv (one : Binary φ)).IsFinite) (h : Staircase f r c rank pivot)
    (hvacant : VacantFrom (n + 1) f rank pivot) :
    VacantFrom n (f.reduceRow c n) rank pivot ∧
      (ClearedFrom n (f.reduceRow c n) rank pivot ↔
        ClearedFrom (n + 1) f rank pivot ∧ (n + 1 < rank → FactorsFinite f pivot n)) := by
  -- the column of the row's own pivot is cleared, those further to the right were cleared before
  have hcolumn : n < rank → ∀ k < n, (f.reduceRow c n k (pivot n)).isZero = true := by
    intro hn k hk
    rw [h.reduceRow_of_lt hn, Grid.clearAbove, if_pos hk]
    exact Grid.isZero_cancel (K := Binary φ) _ _ _ _
  constructor
  · intro i hni hi k hk
    rcases hni.eq_or_lt with rfl | hlt
    · exact Or.inl (hcolumn hi k hk)
    · exact (isVacant_reduceRow hφ hone h hvacant hlt hi hk).1
  constructor
  · intro hclear
    have hbefore : ∀ i, n < i → (hi : i < rank) → ∀ k, (hk : k < i) → _ := fun i hni hi k hk =>
      (isVacant_reduceRow hφ hone h hvacant hni hi hk).2.1 (hclear i hni.le hi k hk)
    refine ⟨fun i hni hi k hk => (hbefore i hni hi k hk).1, fun hlast => ⟨?_, fun k hk => ?_⟩⟩
    · exact (hbefore (n + 1) n.lt_succ_self hlast n n.lt_succ_self).2.1 rfl
    · exact (hbefore (n + 1) n.lt_succ_self hlast k (hk.trans n.lt_succ_self)).2.2 hk
  · rintro ⟨hclear, hfactors⟩ i hni hi k hk
    rcases hni.eq_or_lt with rfl | hlt
    · exact hcolumn hi k hk
    · exact (isVacant_reduceRow hφ hone h hvacant hlt hi hk).2.2 (hclear i hlt hi k hk)
        (hclear i hlt hi n hlt) (hfactors (Nat.lt_of_le_of_lt hlt hi))

/-! ### The run -/

/-- **The run.** The entries above the pivots are zeros in the end exactly if those above the last
pivots were, and the factors of the rows that were reduced are finite, except for the last pivot. -/
theorem cleared_reduceRows_iff [OneIsNonzero (Binary φ)] (hφ : 0 < φ.exponentBias)
    (hone : (Scalar.inv (one : Binary φ)).IsFinite) (h : Staircase f r c rank pivot)
    (hvacant : VacantFrom n f rank pivot) (hn : n ≤ r) :
    ClearedFrom 0 (f.reduceRows c n) rank pivot ↔
      ClearedFrom n f rank pivot ∧ ∀ i < n, i + 1 < rank → FactorsFinite f pivot i := by
  induction n generalizing f with
  | zero => simp [Grid.reduceRows]
  | succ n ih =>
    obtain ⟨hvacant', hstep⟩ := cleared_reduceRow_iff hφ hone h hvacant
    -- the row changes nothing to the left of its pivot, where the pivots of the rows above are
    have hfactors : ∀ i < n, i + 1 < rank →
        (FactorsFinite (f.reduceRow c n) pivot i ↔ FactorsFinite f pivot i) := by
      intro i hi hrank
      have hsame : ∀ k, f.reduceRow c n k (pivot i) = f k (pivot i) := by
        intro k
        rcases Nat.lt_or_ge n rank with hlt | hge
        · exact h.reduceRow_of_lt_pivot hlt (h.pivot_lt_pivot i n hi hlt) k
        · rw [h.reduceRow_of_le hge hn]
      simp only [FactorsFinite, hsame]
    rw [Grid.reduceRows, ih (h.reduceRow hn) hvacant' (Nat.le_of_succ_le hn), hstep, and_assoc]
    refine and_congr_right fun _ => ?_
    constructor
    · rintro ⟨hlast, hrest⟩ i hi hrank
      rcases Nat.lt_succ_iff_lt_or_eq.mp hi with hlt | rfl
      · exact (hfactors i hlt hrank).mp (hrest i hlt hrank)
      · exact hlast hrank
    · intro hall
      exact ⟨hall n n.lt_succ_self, fun i hi hrank =>
        (hfactors i hi hrank).mpr (hall i (hi.trans n.lt_succ_self) hrank)⟩

/-- The reduced form of an echelon form is a reduced staircase exactly if the factors of all rows
but the last one with a pivot are finite. -/
theorem exists_reducedStaircase_reduceRows_iff [OneIsNonzero (Binary φ)]
    (hφ : 0 < φ.exponentBias) (hone : (Scalar.inv (one : Binary φ)).IsFinite)
    (h : Staircase f r c rank pivot) :
    (∃ rank' pivot', ReducedStaircase (f.reduceRows c r) r c rank' pivot') ↔
      ∀ i, i + 1 < rank → FactorsFinite f pivot i := by
  have hnone : ∀ i, r ≤ i → ¬i < rank := fun i hi => Nat.not_lt.mpr (h.rank_le.trans hi)
  have hrun := cleared_reduceRows_iff hφ hone h
    (fun i hi hrank => absurd hrank (hnone i hi)) le_rfl
  have hunit := h.unitStaircase_reduceRows
  have hcleared : ClearedFrom 0 (f.reduceRows c r) rank pivot ↔
      ∀ i, i + 1 < rank → FactorsFinite f pivot i := by
    have hlast : ClearedFrom r f rank pivot := fun i hi hrank => absurd hrank (hnone i hi)
    rw [hrun, and_iff_right hlast]
    exact ⟨fun hall i hi => hall i (by have := h.rank_le; omega) hi, fun hall i _ => hall i⟩
  rw [← hcleared]
  constructor
  · rintro ⟨rank', pivot', hreduced⟩ i - hi k hk
    -- a row with a pivot has the same one in both staircases
    have hlead := hunit.leading?_of_lt hi
    rcases Nat.lt_or_ge i rank' with hi' | hi'
    · rw [hreduced.leading?_of_lt hi', Option.some.injEq] at hlead
      exact hlead ▸ hreduced.zero_above i hi' k hk
    · rw [hreduced.leading?_of_le hi' (hi.trans_le h.rank_le)] at hlead
      cases hlead
  · intro hclear
    exact ⟨rank, pivot, hunit.toStaircase, hunit.one, fun i hi => hclear i (Nat.zero_le i) hi⟩

/-! ### Double precision -/

namespace DenseMatrix

/-- In an echelon form with the given pivots, the reciprocal of each pivot but the last one is
finite, and so is whatever stands above it. -/
def FiniteFactors (echelon : DenseMatrix (Binary φ)) (pivots : List ℕ) : Prop :=
  ∀ i j, i + 1 < pivots.length → pivots[i]? = some j →
    (Scalar.inv (echelon.entry i j)).IsFinite ∧ ∀ k < i, (echelon.entry k j).IsFinite

theorem finiteFactors_tabulate (h : Staircase f r c rank pivot) :
    FiniteFactors (tabulate r c f) ((List.range rank).map pivot) ↔
      ∀ i, i + 1 < rank → FactorsFinite f pivot i := by
  have hpivot : ∀ i < rank, ((List.range rank).map pivot)[i]? = some (pivot i) := by
    intro i hi
    rw [List.getElem?_map, List.getElem?_range hi, Option.map_some]
  have hentry : ∀ i < rank, ∀ k ≤ i, (tabulate r c f).entry k (pivot i) = f k (pivot i) :=
    fun i hi k hk => entry_tabulate f (hk.trans_lt (hi.trans_le h.rank_le)) (h.pivot_lt i hi)
  rw [FiniteFactors, List.length_map, List.length_range]
  constructor
  · intro hall i hlast
    have hi : i < rank := Nat.lt_of_succ_lt hlast
    obtain ⟨hinverse, habove⟩ := hall i (pivot i) hlast (hpivot i hi)
    exact ⟨hentry i hi i le_rfl ▸ hinverse, fun k hk => hentry i hi k hk.le ▸ habove k hk⟩
  · intro hall i j hlast hj
    have hi : i < rank := Nat.lt_of_succ_lt hlast
    obtain rfl : pivot i = j := Option.some.inj ((hpivot i hi).symm.trans hj)
    obtain ⟨hinverse, habove⟩ := hall i hlast
    refine ⟨?_, fun k hk => ?_⟩
    · rw [hentry i hi i le_rfl]
      exact hinverse
    · rw [hentry i hi k hk.le]
      exact habove k hk

/-- **The reduced form of a binary64 matrix is reduced exactly if the factors are finite.** Whatever
the entries are, the echelon form, its pivots, the reduced form and the reduced form of that exist.
The test for reduced forms then answers whether the factors of the echelon form are finite, and
reducing once more changes nothing exactly if they are. -/
theorem isReducedRowEchelon_reduced_iff {m : DenseMatrix (Binary binary64)} (h : m.WellFormed) :
    ∃ echelon pivots reduced again accepted,
      m.rowEchelonForm.outcome = .ok echelon ∧ m.pivotColumns.outcome = .ok pivots ∧
      m.reducedRowEchelonForm.outcome = .ok reduced ∧
      reduced.reducedRowEchelonForm.outcome = .ok again ∧
      reduced.isReducedRowEchelon = .ok accepted ∧
      (accepted = true ↔ FiniteFactors echelon pivots) ∧
      (again.equal reduced = true ↔ FiniteFactors echelon pivots) := by
  obtain ⟨r, c, f, rfl⟩ : ∃ r c, ∃ f : Grid (Binary binary64), m = tabulate r c f :=
    ⟨_, _, _, eq_tabulate_entry h rfl rfl⟩
  obtain ⟨pivot, hechelon⟩ := Sweep.exists_staircase r f c
  obtain ⟨accepted, htest, haccepted⟩ := isReducedRowEchelon_iff (r := r) (c := c) (f.reduced r c)
  have hstair := exists_reducedStaircase_reduceRows_iff (by decide) (by decide +kernel) hechelon
  have hfactors := finiteFactors_tabulate hechelon
  refine ⟨_, _, _, _, accepted, rowEchelonForm_tabulate f, pivotColumns_tabulate hechelon,
    reducedRowEchelonForm_tabulate f, reducedRowEchelonForm_tabulate _, htest, ?_, ?_⟩
  · rw [haccepted, hfactors, ← hstair, Grid.reduced]
  · rw [← exists_reducedStaircase_iff_reduced_equal, hfactors, ← hstair, Grid.reduced]

/-- The last pivot may be the least positive number, although its reciprocal is infinite: only the
reciprocal of the first pivot is asked for. -/
theorem reduced_of_tiny_last_pivot :
    let m : DenseMatrix (Binary binary64) := ⟨2, 2, #[one, one, Binary.zero, ⟨1#64⟩]⟩
    m.WellFormed ∧ ¬(Scalar.inv (⟨1#64⟩ : Binary binary64)).IsFinite ∧
      ∃ reduced again, m.reducedRowEchelonForm.outcome = .ok reduced ∧
        reduced.isReducedRowEchelon = .ok true ∧
        reduced.reducedRowEchelonForm.outcome = .ok again ∧ again.equal reduced = true := by
  intro m
  have hm : m.WellFormed := by decide
  obtain ⟨echelon, pivots, reduced, again, accepted, hechelon, hpivots, hreduced, hagain, htest,
    haccepted, hequal⟩ := isReducedRowEchelon_reduced_iff hm
  have hform : m.rowEchelonForm.outcome = .ok m := by decide +kernel
  have hcolumns : m.pivotColumns.outcome = .ok [0, 1] := by decide +kernel
  obtain rfl : m = echelon := Except.ok.inj (hform.symm.trans hechelon)
  obtain rfl : [0, 1] = pivots := Except.ok.inj (hcolumns.symm.trans hpivots)
  have hfactors : FiniteFactors m [0, 1] := by
    intro i j hi hj
    obtain rfl : i = 0 := by simpa using hi
    obtain rfl : 0 = j := by simpa using hj
    exact ⟨by decide +kernel, fun k hk => absurd hk (Nat.not_lt_zero k)⟩
  obtain rfl : accepted = true := haccepted.mpr hfactors
  exact ⟨hm, by decide +kernel, reduced, again, hreduced, htest, hagain, hequal.mpr hfactors⟩

/-- **A tiny pivot spoils the reduced form.** All entries are finite, but the reciprocal of the
least positive number is infinite, and its product with the zero above the second pivot is a NaN.
The second reduction clears it, so it changes the matrix. -/
theorem not_reduced_of_tiny_pivot :
    let m : DenseMatrix (Binary binary64) := ⟨2, 2, #[⟨1#64⟩, Binary.zero, Binary.zero, one]⟩
    m.WellFormed ∧ (∀ x ∈ m.entries, x.IsFinite) ∧
      ∃ reduced, m.reducedRowEchelonForm.outcome = .ok reduced ∧
        reduced.isReducedRowEchelon = .ok false ∧
        reduced.reducedRowEchelonForm.outcome = .ok (identity 2) ∧
        (identity 2).equal reduced = false := by
  intro m
  refine ⟨by decide, by decide +kernel, ⟨2, 2, #[one, nan, Binary.zero, one]⟩, ?_⟩
  decide +kernel

end DenseMatrix

end LinearSystems
