import LinearSystems.Proofs.Rational.SameSolutions

/-!
# Solving with a rational matrix

Over the rationals `DenseMatrix.solve` is sound and complete: what it returns holds exactly the
vectors whose product with the matrix is the right-hand side, and in a flat each of them has one
list of parameters. This includes matrices without rows, for which every vector is a solution, and
matrices without columns, for which the empty vector may be one. What has no answer is a system
whose augmented matrix would have more columns than can be counted (`no_answer_of_widest`).
-/

namespace LinearSystems.DenseMatrix

variable {r c : ℕ}

/-- The vectors with a given product solve the augmented system. -/
theorem mulVec_eq_ok_iff_isSolution {f : Grid ℚ} {b : ℕ → ℚ} {x : DenseVector ℚ} :
    (tabulate r c f).mulVec x = .ok (DenseVector.tabulate r b) ↔
      x.dim = c ∧ (f.augment c b).IsSolution r c x.entry := by
  rw [mulVec_eq_ok_iff, Grid.isSolution_augment_iff]

/-- The solution of a tabulated system, with the rank of its matrix. -/
theorem exists_describes_solve (hroom : r = 0 → c < columnLimit) (f : Grid ℚ) (b : ℕ → ℚ) :
    ∃ s rank, ((tabulate r c f).solve (DenseVector.tabulate r b)).outcome = .ok s ∧
      (tabulate r c f).rank.outcome = .ok rank ∧
      s.Describes c (c - rank) ((f.augment c b).IsSolution r c) := by
  obtain ⟨s, hs, hdescribes⟩ :=
    LinearSystem.exists_describes (fun form => List.Perm.refl form.terms) r c (f.augment c b)
  refine ⟨s, _, (outcome_solve_tabulate hroom f b).trans hs, ?_, hdescribes⟩
  rw [← tabulate_augment f b, rank_tabulate]

end LinearSystems.DenseMatrix
