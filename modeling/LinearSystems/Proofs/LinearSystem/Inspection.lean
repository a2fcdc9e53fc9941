import LinearSystems.Proofs.DenseMatrix.Shapes
import LinearSystems.Proofs.Elimination.Staircase
import LinearSystems.LinearSystem.Solution

/-!
# Inspection of reduced systems

An augmented matrix has one column more than there are unknowns, and its elimination is the
elimination of the coefficients followed by one more column. Either that column has no pivot, and
then the rank is that of the coefficients, or it has one, in the row behind those of the
coefficients (`Sweep.exists_staircase_succ`). The inspection of the reduced system tells the two
apart: it counts the pivots of the coefficients, or it stops at the row behind them
(`exists_staircase_inspect`). No scalar law is used but that zero counts as zero and one does not.
-/

namespace LinearSystems

variable {K : Type} [Scalar K] {r c : ℕ}

/-! ### One more column -/

namespace Staircase

variable {f : Grid K} {rank : ℕ} {pivot : ℕ → ℕ}

/-- Without a pivot in the last column, the other columns are a staircase of the same rank. -/
theorem dropColumn (h : Staircase f r (c + 1) rank pivot) (hlt : ∀ i < rank, pivot i < c) :
    Staircase f r c rank pivot :=
  ⟨h.rank_le, hlt, h.pivot_lt_pivot, h.nonzero, h.zero_left,
    fun i hi hr j hj => h.zero_below i hi hr j (Nat.lt_succ_of_lt hj)⟩

/-- With a pivot in the last column, the other columns are a staircase of one rank less. -/
theorem dropPivot (h : Staircase f r (c + 1) (rank + 1) pivot) (hlast : pivot rank = c) :
    Staircase f r c rank pivot := by
  refine ⟨Nat.le_of_succ_le h.rank_le, fun i hi => ?_, fun i k hik hk => ?_, fun i hi => ?_,
    fun i hi => ?_, fun i hi hr j hj => ?_⟩
  · rw [← hlast]
    exact h.pivot_lt_pivot i rank hi (Nat.lt_succ_self rank)
  · exact h.pivot_lt_pivot i k hik (Nat.lt_succ_of_lt hk)
  · exact h.nonzero i (Nat.lt_succ_of_lt hi)
  · exact h.zero_left i (Nat.lt_succ_of_lt hi)
  · rcases Nat.eq_or_lt_of_le hi with rfl | hlt
    · exact h.zero_left rank (Nat.lt_succ_self rank) j (hlast ▸ hj)
    · exact h.zero_below i hlt hr j (Nat.lt_succ_of_lt hj)

end Staircase

/-- **The last column has a pivot or not**, and the other pivots are those of the columns before.
Without one, the last step of the sweep changes nothing. -/
theorem Sweep.exists_staircase_succ [ZeroCountsAsZero K] (r c : ℕ) (f : Grid K) :
    ∃ pivot,
      Staircase (after r f (c + 1)).grid r (c + 1) (after r f c).rank pivot ∧
        (∀ i < (after r f c).rank, pivot i < c) ∧ after r f (c + 1) = after r f c ∨
      Staircase (after r f (c + 1)).grid r (c + 1) ((after r f c).rank + 1) pivot ∧
        pivot (after r f c).rank = c := by
  obtain ⟨pivot, h⟩ := exists_staircase r f c
  rw [after_succ]
  cases hpivot : (after r f c).pivotRow? r c with
  | none =>
    have hsame := h.step_of_none hpivot
    rw [step_of_none hpivot]
    exact ⟨pivot, Or.inl ⟨hsame, h.pivot_lt, rfl⟩⟩
  | some k => exact ⟨_, Or.inr ⟨h.step_of_some hpivot, Function.update_self _ _ _⟩⟩

/-! ### The system of a matrix and a vector -/

namespace DenseMatrix

variable {m : DenseMatrix K} {b : DenseVector K}

omit [Scalar K] in
/-- The system of a matrix and a vector is the matrix with one more column. -/
theorem of_tabulate (hroom : r = 0 → c < columnLimit) (f : Grid K) (b : ℕ → K) :
    LinearSystem.of (tabulate r c f) (DenseVector.tabulate r b)
      = .ok ⟨tabulate r (c + 1) (f.augment c b)⟩ := by
  rw [LinearSystem.of, augment_tabulate hroom, map_ok]

/-- There is a system exactly if the right-hand side fits and its column can be counted. -/
theorem exists_of_iff (h : m.WellFormed) :
    (∃ e, LinearSystem.of m b = .ok e) ↔
      b.dim = m.nrows ∧ (m.nrows = 0 → m.ncols < columnLimit) := by
  rw [← (yields_augment h b).exists_iff, LinearSystem.of]
  cases m.augment b with
  | error fault => simp
  | ok augmented => simp

/-- Solving is building the system and taking its solution. -/
theorem outcome_solve (m : DenseMatrix K) (b : DenseVector K) :
    (m.solve b).outcome = LinearSystem.of m b >>= fun s => s.solution.outcome := by
  rw [solve, Traced.outcome_bind, Traced.outcome_report, ok_bind, Traced.outcome_bind,
    Traced.outcome_lift]

theorem outcome_solve_tabulate (hroom : r = 0 → c < columnLimit) (f : Grid K) (b : ℕ → K) :
    ((tabulate r c f).solve (DenseVector.tabulate r b)).outcome
      = (LinearSystem.solution ⟨tabulate r (c + 1) (f.augment c b)⟩).outcome := by
  rw [outcome_solve, of_tabulate hroom, ok_bind]

/-- Where no column can be appended, nothing is solved. -/
theorem outcome_solve_of_augment_eq_error {fault : Fault} (h : m.augment b = .error fault) :
    (m.solve b).outcome = .error fault := by
  rw [outcome_solve, LinearSystem.of, h, map_error, error_bind]

/-- A right-hand side of another dimension is refused. -/
theorem outcome_solve_of_dim_ne (h : b.dim ≠ m.nrows) :
    (m.solve b).outcome = .error (.columnMismatch m.nrows b.dim) :=
  outcome_solve_of_augment_eq_error (if_neg h)

end DenseMatrix

/-! ### Rows -/

/-- A row counts as zero exactly if it has no leading entry. -/
theorem Grid.all_isZero_iff {f : Grid K} {i : ℕ} :
    ((List.range c).map (f i)).all Scalar.isZero = true ↔ f.leading? c i = none := by
  rw [Grid.leading?_eq_none, List.all_map, List.all_eq_true]
  simp only [List.mem_range, Function.comp_apply]

namespace LinearSystem

open DenseMatrix

variable {g : Grid K} {y : ℕ → K} {rank : ℕ} {pivot : ℕ → ℕ}

/-- If the constants behind the rank count as zero, the rows with a pivot are counted. -/
theorem inspect_consistent (h : Staircase g r c rank pivot)
    (hzero : ∀ i, rank ≤ i → i < r → Scalar.isZero (y i) = true) (count : ℕ) {i : ℕ}
    (hcount : i + count = r) (seen : ℕ) :
    inspect (tabulate r c g) (DenseVector.tabulate r y) i seen count
      = .ok (.consistent (seen + (rank - i))) := by
  induction count generalizing i seen with
  | zero =>
    have hrank := h.rank_le
    rw [inspect, Nat.sub_eq_zero_of_le (by omega), Nat.add_zero]
  | succ count ih =>
    have hi : i < r := by omega
    rw [inspect, row_tabulate g hi, ok_bind]
    rcases Nat.lt_or_ge i rank with hrank | hbelow
    · have hrow : ¬((List.range c).map (g i)).all Scalar.isZero = true := by
        rw [Grid.all_isZero_iff, h.leading?_of_lt hrank]
        exact Option.some_ne_none _
      rw [if_neg hrow, ih (by omega)]
      congr 2
      omega
    · rw [if_pos (Grid.all_isZero_iff.2 (h.leading?_of_le hbelow hi)),
        DenseVector.get_tabulate y hi, ok_bind, if_pos (hzero i hbelow hi), ih (by omega)]
      congr 2
      omega

/-- If the first constant behind the rank does not count as zero, the inspection stops there. -/
theorem inspect_inconsistent (h : Staircase g r c rank pivot) (hrank : rank < r)
    (hnonzero : Scalar.isZero (y rank) = false) (count : ℕ) {i : ℕ} (hi : i ≤ rank)
    (hcount : i + count = r) (seen : ℕ) :
    inspect (tabulate r c g) (DenseVector.tabulate r y) i seen count
      = .ok (.inconsistent rank) := by
  induction count generalizing i seen with
  | zero => exact absurd hrank (by omega)
  | succ count ih =>
    have hir : i < r := by omega
    rw [inspect, row_tabulate g hir, ok_bind]
    rcases Nat.eq_or_lt_of_le hi with rfl | hlt
    · rw [if_pos (Grid.all_isZero_iff.2 (h.leading?_of_le (Nat.le_refl i) hrank)),
        DenseVector.get_tabulate y hrank, ok_bind, if_neg (by rw [hnonzero]; decide), pure_eq_ok]
    · have hrow : ¬((List.range c).map (g i)).all Scalar.isZero = true := by
        rw [Grid.all_isZero_iff, h.leading?_of_lt hlt]
        exact Option.some_ne_none _
      rw [if_neg hrow]
      exact ih hlt (by omega) (seen + 1)

/-- A staircase without a pivot among the constants is consistent. -/
theorem inspect_of_pivot_lt (h : Staircase g r (c + 1) rank pivot)
    (hlt : ∀ i < rank, pivot i < c) :
    inspect (tabulate r c g) (DenseVector.tabulate r fun i => g i c) 0 0 r
      = .ok (.consistent rank) := by
  rw [inspect_consistent (h.dropColumn hlt)
    (fun i hi hr => h.zero_below i hi hr c (Nat.lt_succ_self c)) r (Nat.zero_add r), Nat.zero_add,
    Nat.sub_zero]

/-- A staircase with a pivot among the constants is inconsistent. -/
theorem inspect_of_pivot_eq (h : Staircase g r (c + 1) (rank + 1) pivot)
    (hlast : pivot rank = c) :
    inspect (tabulate r c g) (DenseVector.tabulate r fun i => g i c) 0 0 r
      = .ok (.inconsistent rank) := by
  have hnonzero := h.nonzero rank (Nat.lt_succ_self rank)
  rw [hlast] at hnonzero
  exact inspect_inconsistent (h.dropPivot hlast) h.rank_le hnonzero r (Nat.zero_le rank)
    (Nat.zero_add r) 0

/-- **The inspection of a reduced system** counts the pivots of the coefficients, or it stops at
the row behind them. If it does not stop, the reduced coefficients have the pivots that an
elimination of the coefficients alone finds. -/
theorem exists_staircase_inspect [ZeroCountsAsZero K] [OneIsNonzero K] (r c : ℕ) (f : Grid K) :
    ∃ pivot, Staircase (Sweep.after r f c).grid r c (Sweep.after r f c).rank pivot ∧
      (inspect (tabulate r c (f.reduced r (c + 1)))
          (DenseVector.tabulate r fun i => f.reduced r (c + 1) i c) 0 0 r
          = .ok (.inconsistent (Sweep.after r f c).rank) ∨
        inspect (tabulate r c (f.reduced r (c + 1)))
            (DenseVector.tabulate r fun i => f.reduced r (c + 1) i c) 0 0 r
            = .ok (.consistent (Sweep.after r f c).rank) ∧
          Staircase (f.reduced r (c + 1)) r c (Sweep.after r f c).rank pivot) := by
  obtain ⟨pivot, ⟨hafter, hlt, hsame⟩ | ⟨hafter, hlast⟩⟩ := Sweep.exists_staircase_succ r c f
  · have hwide : Staircase (f.reduced r (c + 1)) r (c + 1) (Sweep.after r f c).rank pivot :=
      hafter.reduceRows le_rfl
    rw [hsame] at hafter
    exact ⟨pivot, hafter.dropColumn hlt,
      Or.inr ⟨inspect_of_pivot_lt hwide hlt, hwide.dropColumn hlt⟩⟩
  · have hwide : Staircase (f.reduced r (c + 1)) r (c + 1) ((Sweep.after r f c).rank + 1) pivot :=
      hafter.reduceRows le_rfl
    obtain ⟨inner, hinner⟩ := Sweep.exists_staircase r f c
    exact ⟨inner, hinner, Or.inl (inspect_of_pivot_eq hwide hlast)⟩

end LinearSystem

end LinearSystems
