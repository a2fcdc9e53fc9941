import LinearSystems.Proofs.LinearSystem.FreeUnknowns
import LinearSystems.Proofs.LinearSystem.TermOrder
import LinearSystems.Proofs.Rational.Scalar
import LinearSystems.Binary.Basic

/-!
# Linear forms with rational coefficients

Over the rationals a linear form is what its coefficients say: to set a coefficient sets it, also
where a zero is not stored, and to add a multiple of a form adds that multiple to each coefficient
(`coefficient_addScaled`), in whatever order the terms are visited.

In the end this is put together with what holds of all scalars: terms that are stored are not zero,
and a solution does not depend on the places where terms are stored.
-/

namespace LinearSystems

namespace LinearForm

@[simp]
theorem coefficient_constant_constant (value : ℚ) :
    (constant value).coefficient .constant = value := by
  rw [constant]
  split_ifs with hzero
  · rw [Rational.isZero_iff.1 hzero]
    rfl
  · simp [coefficient]

@[simp]
theorem coefficient_constant_free (value : ℚ) (j : ℕ) :
    (constant value).coefficient (.free j) = 0 := by
  rw [constant]
  split_ifs with hzero
  · rfl
  · rfl

@[simp]
theorem coefficient_free_constant (j : ℕ) :
    (free j : LinearForm ℚ).coefficient .constant = 0 := rfl

theorem coefficient_free_free (j l : ℕ) :
    (free j : LinearForm ℚ).coefficient (.free l) = if j = l then 1 else 0 := by
  rcases eq_or_ne j l with rfl | hjl
  · rw [coefficient_free_self, if_pos rfl, Rational.one_eq]
  · rw [coefficient_free_of_ne fun heq => hjl (Parameter.free.inj heq).symm, if_neg hjl,
      Rational.zero_eq]

/-! ### Adding a multiple of a form -/

section AddScaled

variable {visit : LinearForm ℚ → List (Parameter × ℚ)}

/-- **A multiple of a form is added coefficient by coefficient**, in whatever order its terms are
visited. -/
theorem coefficient_addScaled (f : LinearForm ℚ) {g : LinearForm ℚ} (hg : Distinct g.terms)
    (hvisit : (visit g).Perm g.terms) (factor : ℚ) (p : Parameter) :
    (f.addScaled visit g factor).coefficient p
      = f.coefficient p + factor * g.coefficient p := by
  have hdistinct : Distinct (visit g) := (hvisit.map Prod.fst).nodup_iff.2 hg
  rw [addScaled, coefficient, lookup_addTerms f hdistinct, lookup_eq_of_perm hg hvisit]
  cases hterm : g.terms.lookup p with
  | none =>
    have hzero : g.coefficient p = 0 := by
      rw [coefficient, hterm, Option.getD_none, Rational.zero_eq]
    rw [hzero, mul_zero, add_zero, coefficient]
  | some value =>
    have hvalue : g.coefficient p = value := by rw [coefficient, hterm, Option.getD_some]
    rw [hvalue, mul_comm factor]
    dsimp only
    split_ifs with hzero
    · -- a sum that is zero is not stored, and read as zero
      exact (Rational.isZero_iff.1 hzero).symm
    · rfl

/-- Adding a multiple of a free parameter changes its coefficient. -/
theorem coefficient_addScaled_free (hvisit : ∀ form, (visit form).Perm form.terms)
    (form : LinearForm ℚ) (j : ℕ) (factor : ℚ) (q : Parameter) :
    (form.addScaled visit (free j) factor).coefficient q
      = form.coefficient q + if q = .free j then factor else 0 := by
  rw [coefficient_addScaled form (distinct_free j) (hvisit _)]
  split_ifs with hq
  · rw [hq, coefficient_free_self, Rational.one_eq, mul_one]
  · rw [coefficient_free_of_ne hq, Rational.zero_eq, mul_zero]

end AddScaled

end LinearForm

/-! ### Faithful forms -/

open LinearForm LinearSystem

/-- **Linear forms are faithful, whatever the order of their terms.** Let two rational forms store
no zeros. If a multiple of the second is added to the first, with the terms visited in any order, no
zeros are stored afterwards, and each coefficient has grown by that multiple.

For scalars without laws, the solution of a system is the same, down to what is reported, in
whatever order the terms of forms are visited. Nor does it matter if the order is not a property of
the form: before each row, the terms of each unknown may be stored anew, in an order of their
own. -/
theorem faithful_in_every_order {K : Type} [Scalar K] :
    (∀ (f g : LinearForm ℚ) (factor : ℚ) (visit : LinearForm ℚ → List (Parameter × ℚ)),
      f.Sparse → g.Sparse → (visit g).Perm g.terms →
        (f.addScaled visit g factor).Sparse ∧
        ∀ p, (f.addScaled visit g factor).coefficient p
          = f.coefficient p + factor * g.coefficient p) ∧
    ∀ s : LinearSystem K,
      (∀ visit : LinearForm K → List (Parameter × K),
        (∀ form, (visit form).Perm form.terms) → s.solutionVia visit = s.solution) ∧
      ∀ arrange : ℕ → ℕ → LinearForm K → List (Parameter × K),
        (∀ i j form, (arrange i j form).Perm form.terms) →
          s.solutionWith (resolveArranged arrange) = s.solution :=
  ⟨fun f _ factor _ hf hg hvisit =>
      ⟨hf.addTerms _ factor, coefficient_addScaled f hg.distinct hvisit factor⟩,
    fun s => ⟨fun _ hvisit => solutionVia_eq_solution hvisit s,
      fun _ harrange => solutionWith_resolveArranged_eq_solution harrange s⟩⟩

/-- A constant that cancels is not stored, and an equation with NaNs is solved alike if the terms
are visited backwards, for all unknowns or for every second one. -/
theorem faithful_of_cancelled_constant :
    let f : LinearForm ℚ := ⟨[(.constant, 1), (.free 0, 2)]⟩
    let g : LinearForm ℚ := ⟨[(.constant, -1/2), (.free 1, 3)]⟩
    let backwards (form : LinearForm ℚ) : List (Parameter × ℚ) := form.terms.reverse
    let s : LinearSystem (Binary binary64) := ⟨⟨1, 3, #[Binary.nan, Binary.one, Binary.nan]⟩⟩
    f.Sparse ∧ g.Sparse ∧ (f.addScaled backwards g 2).Sparse ∧
      (f.addScaled backwards g 2).coefficient .constant = 1 + 2 * (-1/2) ∧
      s.solutionVia (fun form => form.terms.reverse) = s.solution ∧
      s.solutionWith (resolveArranged fun _ j form =>
        if j % 2 = 0 then form.terms.reverse else form.terms) = s.solution := by
  intro f g backwards s
  have hf : f.Sparse := ⟨by simp [Distinct, f], by decide +kernel⟩
  have hg : g.Sparse := ⟨by simp [Distinct, g], by decide +kernel⟩
  obtain ⟨hsum, hsolution⟩ := faithful_in_every_order (K := Binary binary64)
  obtain ⟨hsparse, hcoefficient⟩ := hsum f g 2 backwards hf hg (List.reverse_perm g.terms)
  refine ⟨hf, hg, hsparse, hcoefficient .constant,
    (hsolution s).1 _ fun form => List.reverse_perm form.terms,
    (hsolution s).2 _ fun _ j form => ?_⟩
  split_ifs
  · exact List.reverse_perm form.terms
  · exact List.Perm.refl form.terms

end LinearSystems
