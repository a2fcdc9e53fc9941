import LinearSystems.Proofs.LinearSystem.Resolution
import LinearSystems.Proofs.Elimination.FreeColumns
import LinearSystems.Proofs.Flat.Tabulate

/-!
# The free unknowns of a system, for scalars without laws

In the general case the solution of a system has one direction for each column without a pivot,
whatever the scalars are. Nothing can be computed for this, since a sum may be rounded and a product
of zero may be a NaN; what is used is where things stand. An elimination leaves a staircase, and the
resolution goes through its rows from the last one upwards, so that a row substitutes unknowns to
the right of its pivot only. These are free, or their own pivots stand further below and were
resolved before. Hence **no resolved unknown mentions the parameter of a pivot** (`Parametrized`),
not even with a coefficient that happens to be zero.

The rank that the inspection of the reduced system counts is that of the coefficients alone, because
the elimination of the coefficients is a moment of the elimination of the augmented matrix.
-/

namespace LinearSystems

variable {K : Type} [Scalar K] {r c : ℕ}

/-! ### Parameters of a form -/

namespace LinearForm

/-- One of the terms of a form is a multiple of the parameter. -/
def Mentions (f : LinearForm K) (p : Parameter) : Prop :=
  ∃ value, (p, value) ∈ f.terms

theorem coefficient_of_not_mentions {f : LinearForm K} {p : Parameter} (h : ¬f.Mentions p) :
    f.coefficient p = Scalar.zero := by
  have hnone : f.terms.lookup p = none := by
    rw [List.lookup_eq_none_iff]
    rintro ⟨q, value⟩ hmem
    by_contra hq
    have hpq : p = q := by simpa using hq
    exact h ⟨value, hpq ▸ hmem⟩
  rw [coefficient, hnone]
  rfl

theorem eq_constant_of_mentions_constant {value : K} {p : Parameter}
    (h : (constant value).Mentions p) : p = .constant := by
  obtain ⟨v, hmem⟩ := h
  rw [constant] at hmem
  split_ifs at hmem with hzero
  · cases hmem
  · exact congrArg Prod.fst (List.mem_singleton.1 hmem)

theorem eq_free_of_mentions_free {j : ℕ} {p : Parameter} (h : (free j : LinearForm K).Mentions p) :
    p = .free j := by
  obtain ⟨v, hmem⟩ := h
  exact congrArg Prod.fst (List.mem_singleton.1 hmem)

theorem coefficient_free_self (j : ℕ) :
    (free j : LinearForm K).coefficient (.free j) = Scalar.one := by
  simp [coefficient, free]

theorem coefficient_free_of_ne {j : ℕ} {p : Parameter} (h : p ≠ .free j) :
    (free j : LinearForm K).coefficient p = Scalar.zero :=
  coefficient_of_not_mentions fun hp => h (eq_free_of_mentions_free hp)

theorem mentions_of_setCoefficient {f : LinearForm K} {p q : Parameter} {value : K}
    (h : (f.setCoefficient p value).Mentions q) : q = p ∨ f.Mentions q := by
  obtain ⟨v, hmem⟩ := h
  rw [setCoefficient] at hmem
  split_ifs at hmem with hzero
  · exact Or.inr ⟨v, (List.mem_filter.1 hmem).1⟩
  · rcases List.mem_cons.1 hmem with hnew | hold
    · exact Or.inl (congrArg Prod.fst hnew)
    · exact Or.inr ⟨v, (List.mem_filter.1 hold).1⟩

theorem mentions_of_addTerms {f : LinearForm K} {terms : List (Parameter × K)} {factor : K}
    {q : Parameter} (h : (f.addTerms terms factor).Mentions q) :
    f.Mentions q ∨ ∃ value, (q, value) ∈ terms := by
  induction terms generalizing f with
  | nil => exact Or.inl h
  | cons t ts ih =>
    rcases ih h with hf | ⟨v, hmem⟩
    · rcases mentions_of_setCoefficient hf with rfl | hold
      · exact Or.inr ⟨t.2, List.mem_cons_self⟩
      · exact Or.inl hold
    · exact Or.inr ⟨v, List.mem_cons_of_mem t hmem⟩

variable {visit : LinearForm K → List (Parameter × K)}

/-- A sum mentions what its summands mention, in whatever order terms are visited. -/
theorem mentions_of_addScaled (hvisit : ∀ form, (visit form).Perm form.terms)
    {f g : LinearForm K} {factor : K} {q : Parameter}
    (h : (f.addScaled visit g factor).Mentions q) : f.Mentions q ∨ g.Mentions q :=
  (mentions_of_addTerms h).imp_right fun ⟨v, hmem⟩ => ⟨v, (hvisit g).mem_iff.1 hmem⟩

end LinearForm

/-- The unknown of a pivot mentions the constant and what the unknowns to its right mention. -/
theorem Grid.mentions_of_rowForm {visit : LinearForm K → List (Parameter × K)}
    (hvisit : ∀ form, (visit form).Perm form.terms) {g : Grid K} {forms : ℕ → LinearForm K}
    {i p : ℕ} {q : Parameter} (h : (g.rowForm visit c forms i p).Mentions q) :
    q = .constant ∨ ∃ j, p < j ∧ j < c ∧ (forms j).Mentions q := by
  have hfold : ∀ (columns : List ℕ) (form : LinearForm K),
      (columns.foldl (fun form j => if Scalar.isZero (g i j) then form
        else form.addScaled visit (forms j) (Scalar.neg (g i j))) form).Mentions q →
      form.Mentions q ∨ ∃ j ∈ columns, (forms j).Mentions q := by
    intro columns
    induction columns with
    | nil => exact fun form hform => Or.inl hform
    | cons j columns ih =>
      intro form hform
      rw [List.foldl_cons] at hform
      rcases ih _ hform with hstep | ⟨k, hk, hmentions⟩
      · split_ifs at hstep with hzero
        · exact Or.inl hstep
        · exact (LinearForm.mentions_of_addScaled hvisit hstep).imp_right
            fun hj => ⟨j, List.mem_cons_self, hj⟩
      · exact Or.inr ⟨k, List.mem_cons_of_mem j hk, hmentions⟩
  rcases hfold _ _ h with hconstant | ⟨j, hj, hmentions⟩
  · exact Or.inl (LinearForm.eq_constant_of_mentions_constant hconstant)
  · obtain ⟨hle, hlt⟩ := List.mem_range'_1.1 hj
    exact Or.inr ⟨j, hle, by omega, hmentions⟩

/-! ### The invariant -/

/-- The rows from row `n` on are resolved: the unknowns of their pivots mention the parameter of no
pivot, and all others are still free parameters of their own. -/
structure Parametrized (n rank : ℕ) (pivot : ℕ → ℕ) (forms : ℕ → LinearForm K) : Prop where
  free : ∀ j, (∀ i, n ≤ i → i < rank → pivot i ≠ j) → forms j = .free j
  unmentioned : ∀ i, n ≤ i → i < rank → ∀ k < rank, ¬(forms (pivot i)).Mentions (.free (pivot k))

namespace Parametrized

variable {g : Grid K} {n rank : ℕ} {pivot : ℕ → ℕ} {forms : ℕ → LinearForm K}
  {visit : LinearForm K → List (Parameter × K)}

/-- To the right of the pivot of the row above, no unknown mentions the parameter of a pivot. -/
theorem not_mentions_right (hforms : Parametrized (n + 1) rank pivot forms)
    (h : Staircase g r c rank pivot) (hn : n < rank) {j : ℕ} (hj : pivot n < j) {k : ℕ}
    (hk : k < rank) : ¬(forms j).Mentions (.free (pivot k)) := by
  rcases Classical.em (∃ i, n + 1 ≤ i ∧ i < rank ∧ pivot i = j) with ⟨i, hi, hirank, rfl⟩ | hnone
  · exact hforms.unmentioned i hi hirank k hk
  · -- the unknown is free, and its column is that of no pivot
    rw [hforms.free j fun i hi hirank heq => hnone ⟨i, hi, hirank, heq⟩]
    intro hmentions
    obtain rfl : pivot k = j := Parameter.free.inj (LinearForm.eq_free_of_mentions_free hmentions)
    refine hnone ⟨k, Nat.succ_le_of_lt (Nat.lt_of_not_le fun hkn => ?_), hk, rfl⟩
    rcases Nat.eq_or_lt_of_le hkn with rfl | hlt
    · exact lt_irrefl _ hj
    · exact Nat.lt_asymm hj (h.pivot_lt_pivot k n hlt hn)

/-- **One more row is resolved.** -/
theorem resolveRow (hvisit : ∀ form, (visit form).Perm form.terms)
    (hforms : Parametrized (n + 1) rank pivot forms) (h : Staircase g r c rank pivot)
    (hn : n < r) : Parametrized n rank pivot (g.resolveRow visit c forms n) := by
  rcases Nat.lt_or_ge n rank with hrank | hrank
  · rw [h.resolveRow_of_lt visit forms hrank]
    refine ⟨fun j hj => ?_, fun i hi hirank k hk => ?_⟩
    · rw [Function.update_of_ne (hj n le_rfl hrank).symm]
      exact hforms.free j fun i hi => hj i (Nat.le_of_succ_le hi)
    · rcases Nat.eq_or_lt_of_le hi with rfl | hlt
      · rw [Function.update_self]
        intro hmentions
        rcases Grid.mentions_of_rowForm hvisit hmentions with hconstant | ⟨j, hj, -, hright⟩
        · cases hconstant
        · exact hforms.not_mentions_right h hrank hj hk hright
      · rw [Function.update_of_ne (h.pivot_lt_pivot n i hlt hirank).ne']
        exact hforms.unmentioned i hlt hirank k hk
  · -- a zero row resolves nothing, and there is no pivot from it on
    rw [h.resolveRow_of_le visit forms hrank hn]
    exact ⟨fun j hj => hforms.free j fun i hi => hj i (Nat.le_of_succ_le hi),
      fun i hi hirank => absurd hirank (Nat.not_lt.2 (hrank.trans hi))⟩

theorem resolveRows (hvisit : ∀ form, (visit form).Perm form.terms)
    (hforms : Parametrized n rank pivot forms) (h : Staircase g r c rank pivot) (hn : n ≤ r) :
    Parametrized 0 rank pivot (g.resolveRows visit c forms n) := by
  induction n generalizing forms with
  | zero => exact hforms
  | succ n ih => exact ih (hforms.resolveRow hvisit h hn) (Nat.le_of_succ_le hn)

/-- **All unknowns are expressed by the free ones.** -/
theorem all (hvisit : ∀ form, (visit form).Perm form.terms) (h : Staircase g r c rank pivot) :
    Parametrized 0 rank pivot (g.resolveRows visit c LinearForm.free r) :=
  resolveRows hvisit ⟨fun _ _ => rfl, fun _ hi hirank =>
    absurd (hirank.trans_le h.rank_le) (Nat.not_lt.2 hi)⟩ h le_rfl

/-! ### The flat of the resolved forms -/

/-- The parameter of a pivot occurs nowhere. -/
theorem coefficient_free_pivot (hforms : Parametrized 0 rank pivot forms) {i : ℕ} (hi : i < rank)
    (l : ℕ) : (forms l).coefficient (.free (pivot i)) = Scalar.zero := by
  rcases exists_pivot_or_free rank pivot l with ⟨k, hk, rfl⟩ | hfree
  · exact LinearForm.coefficient_of_not_mentions (hforms.unmentioned k (Nat.zero_le k) hk i hi)
  · rw [hforms.free l fun k _ => hfree k,
      LinearForm.coefficient_free_of_ne fun heq => hfree i hi (Parameter.free.inj heq)]

variable [ZeroCountsAsZero K] [OneIsNonzero K]

/-- The unknowns whose parameter occurs are the free ones. -/
theorem isZero_direction_iff (hforms : Parametrized 0 rank pivot forms) {j : ℕ} (hj : j < c) :
    (DenseVector.tabulate c fun l => (forms l).coefficient (.free j)).isZero = false
      ↔ ∀ i < rank, pivot i ≠ j := by
  rw [← Bool.not_eq_true, DenseVector.isZero_tabulate]
  constructor
  · rintro hne i hi rfl
    refine hne fun l _ => ?_
    rw [hforms.coefficient_free_pivot hi]
    exact isZero_zero
  · intro hfree hzero
    have hone := hzero j hj
    rw [hforms.free j fun i _ => hfree i, LinearForm.coefficient_free_self, isZero_one] at hone
    cases hone

/-- **The flat of the resolved forms** has one direction for each free unknown. -/
theorem flatOfForms_eq (hforms : Parametrized 0 rank pivot forms) (c : ℕ) :
    LinearSystem.flatOfForms ((List.range c).map forms)
      = ⟨⟨(freeColumns c rank pivot).map fun j =>
            DenseVector.tabulate c fun l => (forms l).coefficient (.free j)⟩,
          DenseVector.tabulate c fun l => (forms l).coefficient .constant⟩ := by
  have halong : ∀ p, (⟨((List.range c).map forms).map fun form => form.coefficient p⟩ :
      DenseVector K) = DenseVector.tabulate c fun l => (forms l).coefficient p := by
    intro p
    rw [List.map_map]
    rfl
  -- the directions that are kept are those of the free columns
  have hkept : (List.range c).filter ((fun v : DenseVector K => !v.isZero) ∘
      fun j => DenseVector.tabulate c fun l => (forms l).coefficient (.free j))
        = freeColumns c rank pivot := by
    refine List.filter_congr fun j hj => ?_
    rw [Function.comp_apply, Bool.eq_iff_iff, Bool.not_eq_true', decide_eq_true_iff]
    exact hforms.isZero_direction_iff (List.mem_range.1 hj)
  rw [LinearSystem.flatOfForms]
  simp only [halong, List.length_map, List.length_range, SpanningSet.ofDirections]
  rw [List.filter_map, hkept]

theorem flatOfForms_eq_tabulate (hforms : Parametrized 0 rank pivot forms) (c : ℕ) :
    LinearSystem.flatOfForms ((List.range c).map forms)
      = Flat.tabulate (freeColumns c rank pivot).length c
          (fun a l => (forms l).coefficient (.free (freeColumn c rank pivot a)))
          (fun l => (forms l).coefficient .constant) := by
  rw [hforms.flatOfForms_eq, freeColumns_eq_map, List.map_map, ← freeColumns_eq_map]
  rfl

end Parametrized

end LinearSystems
