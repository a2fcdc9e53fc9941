import LinearSystems.Proofs.Rational.LinearForms
import LinearSystems.Proofs.Rational.ReducedForm
import LinearSystems.Proofs.Rational.Flats

/-!
# The resolved unknowns of a rational system

In a reduced system the unknown of a pivot is the constant of its row less the free unknowns, each
multiplied by its entry in the row. When the row is resolved nothing to the right of the pivot has
been resolved but unknowns of other pivots, whose entries are zero: so whatever is substituted is a
free parameter itself, and the order in which terms are visited does not matter.

`Resolved` is the invariant of the resolution from the last row upwards.
-/

namespace LinearSystems

variable {r c : ℕ} {g : Grid ℚ} {rank : ℕ} {pivot : ℕ → ℕ}

/-! ### Rows -/

section Rows

variable {visit : LinearForm ℚ → List (Parameter × ℚ)}

/-- One substitution: an entry that is zero is skipped, which makes no difference. -/
theorem coefficient_substitute (hvisit : ∀ form, (visit form).Perm form.terms)
    {form unknown : LinearForm ℚ} {e : ℚ} {j : ℕ} (hfree : e ≠ 0 → unknown = .free j)
    (q : Parameter) :
    (if Scalar.isZero e then form
      else form.addScaled visit unknown (Scalar.neg e)).coefficient q
      = form.coefficient q + if q = .free j then -e else 0 := by
  rcases eq_or_ne e 0 with hzero | hzero
  · rw [if_pos (Rational.isZero_iff.2 hzero), hzero, neg_zero, ite_self, add_zero]
  · rw [if_neg (by rw [Rational.isZero_iff]; exact hzero), hfree hzero,
      LinearForm.coefficient_addScaled_free hvisit, Rational.neg_eq]

/-- The substitutions to the right of a pivot: the first `m` columns change the coefficients of
their own unknowns. -/
theorem coefficient_foldl_substitute (hvisit : ∀ form, (visit form).Perm form.terms)
    {forms : ℕ → LinearForm ℚ} {i first : ℕ} (value : ℚ) (m : ℕ)
    (hforms : ∀ j, first ≤ j → j < first + m → g i j ≠ 0 → forms j = .free j) :
    let form := (List.range' first m).foldl
      (fun form j => if Scalar.isZero (g i j) then form
        else form.addScaled visit (forms j) (Scalar.neg (g i j))) (LinearForm.constant value)
    form.coefficient .constant = value ∧
      ∀ l, form.coefficient (.free l) = if first ≤ l ∧ l < first + m then -g i l else 0 := by
  induction m with
  | zero =>
    refine ⟨LinearForm.coefficient_constant_constant value, fun l => ?_⟩
    rw [if_neg (by omega)]
    exact LinearForm.coefficient_constant_free value l
  | succ m ih =>
    obtain ⟨hconstant, hfree⟩ := ih fun j hj hlt => hforms j hj (by omega)
    have hlast := hforms (first + m) (Nat.le_add_right first m) (by omega)
    simp only [List.range'_1_concat, List.foldl_append, List.foldl_cons, List.foldl_nil]
    refine ⟨?_, fun l => ?_⟩
    · rw [coefficient_substitute hvisit hlast, hconstant, if_neg (by simp), add_zero]
    · rw [coefficient_substitute hvisit hlast, hfree]
      rcases eq_or_ne l (first + m) with rfl | hl
      · rw [if_neg (by omega), if_pos rfl, if_pos (by omega), zero_add]
      · have hne : Parameter.free l ≠ Parameter.free (first + m) := by simpa using hl
        rw [if_neg hne, add_zero]
        exact if_congr (by omega) rfl rfl

/-- The form of the unknown of a pivot: its coefficients are the constant and the negated entries
to the right of the pivot, provided that these belong to free unknowns where they are not zero. -/
theorem Grid.coefficient_rowForm (hvisit : ∀ form, (visit form).Perm form.terms)
    {forms : ℕ → LinearForm ℚ} {i p : ℕ} (hp : p < c)
    (hforms : ∀ j, p < j → j < c → g i j ≠ 0 → forms j = .free j) :
    (g.rowForm visit c forms i p).coefficient .constant = g i c ∧
      ∀ l, (g.rowForm visit c forms i p).coefficient (.free l)
        = if p < l ∧ l < c then -g i l else 0 := by
  have hend : p + 1 + (c - (p + 1)) = c := by omega
  have hright : ∀ j, p + 1 ≤ j → j < p + 1 + (c - (p + 1)) → g i j ≠ 0 → forms j = .free j := by
    rw [hend]
    exact hforms
  have h := coefficient_foldl_substitute hvisit (g i c) (c - (p + 1)) hright
  rw [hend] at h
  exact h

end Rows

/-! ### The invariant -/

/-- The rows from row `n` on are resolved: the unknowns of their pivots have the right coefficients,
and all others are still free parameters of their own. -/
structure Resolved (n : ℕ) (g : Grid ℚ) (c rank : ℕ) (pivot : ℕ → ℕ) (forms : ℕ → LinearForm ℚ) :
    Prop where
  free : ∀ j, (∀ i, n ≤ i → i < rank → pivot i ≠ j) → forms j = .free j
  constant : ∀ i, n ≤ i → i < rank → (forms (pivot i)).coefficient .constant = g i c
  parameter : ∀ i, n ≤ i → i < rank → ∀ l, (forms (pivot i)).coefficient (.free l)
    = if pivot i < l ∧ l < c then -g i l else 0

namespace Resolved

variable {visit : LinearForm ℚ → List (Parameter × ℚ)} {n : ℕ} {forms : ℕ → LinearForm ℚ}

/-- **One more row is resolved.** -/
theorem resolveRow (hvisit : ∀ form, (visit form).Perm form.terms)
    (h : ReducedStaircase g r c rank pivot) (hforms : Resolved (n + 1) g c rank pivot forms)
    (hn : n < r) : Resolved n g c rank pivot (g.resolveRow visit c forms n) := by
  rcases Nat.lt_or_ge n rank with hrank | hrank
  · have hrow := h.resolveRow_of_lt visit forms hrank
    -- what is substituted is free: in the column of another pivot the row is zero
    have hfree : ∀ j, pivot n < j → j < c → g n j ≠ 0 → forms j = .free j := by
      refine fun j _ _ hne => hforms.free j fun i hi hilt heq => hne ?_
      rw [← heq, h.entry_pivot hilt hn, if_neg (Nat.ne_of_lt hi)]
    obtain ⟨hconstant, hparameter⟩ :=
      Grid.coefficient_rowForm hvisit (h.pivot_lt n hrank) hfree
    have hold : ∀ i, n + 1 ≤ i → i < rank → g.resolveRow visit c forms n (pivot i)
        = forms (pivot i) := by
      intro i hi hilt
      rw [hrow, Function.update_of_ne (h.pivot_lt_pivot n i hi hilt).ne']
    refine ⟨fun j hj => ?_, fun i hi hilt => ?_, fun i hi hilt => ?_⟩
    · rw [hrow, Function.update_of_ne (hj n le_rfl hrank).symm]
      exact hforms.free j fun i hi => hj i (Nat.le_of_succ_le hi)
    · rcases Nat.eq_or_lt_of_le hi with rfl | hlt
      · rw [hrow, Function.update_self, hconstant]
      · rw [hold i hlt hilt]
        exact hforms.constant i hlt hilt
    · rcases Nat.eq_or_lt_of_le hi with rfl | hlt
      · rw [hrow, Function.update_self]
        exact hparameter
      · rw [hold i hlt hilt]
        exact hforms.parameter i hlt hilt
  · -- a zero row resolves nothing, and there is no pivot from it on
    have hrow := h.resolveRow_of_le visit forms hrank hn
    have hnone : ∀ i, n ≤ i → ¬i < rank := fun i hi => Nat.not_lt.2 (hrank.trans hi)
    rw [hrow]
    exact ⟨fun j hj => hforms.free j fun i hi => hj i (Nat.le_of_succ_le hi),
      fun i hi hilt => absurd hilt (hnone i hi), fun i hi hilt => absurd hilt (hnone i hi)⟩

theorem resolveRows (hvisit : ∀ form, (visit form).Perm form.terms)
    (h : ReducedStaircase g r c rank pivot) {n : ℕ} (hn : n ≤ r)
    (hforms : Resolved n g c rank pivot forms) :
    Resolved 0 g c rank pivot (g.resolveRows visit c forms n) := by
  induction n generalizing forms with
  | zero => exact hforms
  | succ n ih => exact ih (Nat.le_of_succ_le hn) (hforms.resolveRow hvisit h hn)

/-- **All unknowns are resolved**, in whatever order terms are visited. -/
theorem all (hvisit : ∀ form, (visit form).Perm form.terms)
    (h : ReducedStaircase g r c rank pivot) :
    Resolved 0 g c rank pivot (g.resolveRows visit c LinearForm.free r) :=
  resolveRows hvisit h le_rfl ⟨fun _ _ => rfl,
    fun _ hi hilt => absurd (hilt.trans_le h.rank_le) (Nat.not_lt.2 hi),
    fun _ hi hilt => absurd (hilt.trans_le h.rank_le) (Nat.not_lt.2 hi)⟩

end Resolved

end LinearSystems
