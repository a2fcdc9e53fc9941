import LinearSystems.Proofs.DenseMatrix.Layout
import LinearSystems.Proofs.DenseMatrix.RowOperations
import LinearSystems.DenseMatrix.Determinant

/-!
# Cofactors and replaced columns of grids

The entrywise operations, and those of which inverses and Cramer's rule are made, apart from
determinants: sums, differences and multiples, the signs of the cofactors, and a column replaced by
a vector. Each takes tabulations to tabulations, for scalars of every kind. `cofactor_tabulate` says
what the signs on the storage mean by rows and columns.

The matrix of minors is computed with a log; `outcome_tabulateM` forgets it.
-/

namespace LinearSystems.DenseMatrix

variable {K : Type} {r c : ℕ}

/-- Forgetting the log carries computed matrices to computed matrices. -/
theorem outcome_tabulateM (f : ℕ → ℕ → Traced K) :
    (tabulateM r c f).outcome = tabulateM r c fun i j => (f i j).outcome := by
  simp only [tabulateM, Traced.outcome_bind, Traced.outcome_mapM, Traced.outcome_pure, pure_eq_ok]

variable [Scalar K]

/-! ### Entrywise operations -/

theorem scale_tabulate (f : Grid K) (e : K) :
    (tabulate r c f).scale e = tabulate r c fun i j => Scalar.mul (f i j) e := by
  simp only [scale, tabulate, Array.map_ofFn]
  rfl

omit [Scalar K] in
/-- Storages of one shape are combined entry by entry. -/
theorem zipWith_tabulate (op : K → K → K) (f g : Grid K) :
    Array.zipWith op (tabulate r c f).entries (tabulate r c g).entries
      = (tabulate r c fun i j => op (f i j) (g i j)).entries :=
  Array.ext (by simp [tabulate]) fun p _ _ => by simp [tabulate]

theorem add_tabulate (f g : Grid K) :
    (tabulate r c f).add (tabulate r c g)
      = .ok (tabulate r c fun i j => Scalar.add (f i j) (g i j)) := by
  rw [add, if_pos (by simp [shape]), zipWith_tabulate]
  rfl

theorem sub_tabulate (f g : Grid K) :
    (tabulate r c f).sub (tabulate r c g)
      = .ok (tabulate r c fun i j => Scalar.sub (f i j) (g i j)) := by
  rw [sub, if_pos (by simp [shape]), zipWith_tabulate]
  rfl

/-- The signs of the cofactors alternate along rows and columns. -/
theorem cofactor_tabulate (f : Grid K) :
    (tabulate r c f).cofactor
      = tabulate r c fun i j => if (i + j) % 2 = 1 then Scalar.neg (f i j) else f i j := by
  simp only [cofactor, tabulate, mk.injEq, true_and]
  refine Array.ext (by simp) fun p _ _ => ?_
  simp only [Array.getElem_mapIdx, Array.getElem_ofFn]

/-! ### Replaced columns -/

/-- The entries of a column are replaced one after the other, each in its own row. -/
theorem replaceCol_tabulate (f : Grid K) {j : ℕ} (hj : j < c) (b : ℕ → K) :
    (tabulate r c f).replaceCol j (DenseVector.tabulate r b)
      = .ok (tabulate r c fun i => Function.update (f i) j (b i)) := by
  have hstep : ∀ g : Grid K, g r = f r → ∀ k < r, k ≠ r → (tabulate r c g).set k j (b k)
      = .ok (tabulate r c (Function.update g k (Function.update (g k) j (b k)))) := by
    intro g _ k hk _
    rw [set_tabulate g hk hj]
    refine congrArg Except.ok (tabulate_congr fun i _ l _ => ?_)
    rcases eq_or_ne i k with rfl | hik
    · rcases eq_or_ne l j with rfl | hlj
      · simp
      · simp [hlj]
    · simp [hik]
  -- no row serves as a source, so the first one behind the matrix may be taken for it
  have hrows : ∀ k ∈ List.range r, k < r ∧ k ≠ r := fun k hk =>
    ⟨List.mem_range.1 hk, Nat.ne_of_lt (List.mem_range.1 hk)⟩
  rw [replaceCol, nrows_tabulate, if_pos (by simp), DenseVector.zipIdx_tabulate, List.foldlM_map,
    foldlM_rows_tabulate (fun k row => Function.update row j (b k)) hstep List.nodup_range hrows]
  refine congrArg Except.ok (tabulate_congr fun i hi l _ => ?_)
  rw [if_pos (List.mem_range.2 hi)]

end LinearSystems.DenseMatrix
