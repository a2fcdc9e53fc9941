import LinearSystems.Proofs.LinearSystem.Inspection
import LinearSystems.Proofs.Elimination.EchelonForm

/-!
# Resolution on grids

The unknowns of a reduced system are resolved row by row. `Grid.resolveRows` does this to a
sequence of linear forms, one for each unknown, and `resolve_tabulate` says that a program that
keeps them in a list computes the same without ever failing: whatever stands to the right of a
pivot is an unknown of the system.

The three ways in which a solution ends follow, for scalars without laws: there is none, it is the
column of the constants, or it is the flat of the resolved forms.
-/

namespace LinearSystems

variable {K : Type} [Scalar K] {r c : ℕ}

/-! ### Forms instead of lists of forms -/

namespace Grid

variable (visit : LinearForm K → List (Parameter × K))

/-- The form of the unknown of a pivot: the constant of its row, less the unknowns to the right of
the pivot. The constants stand in column `c`. -/
def rowForm (g : Grid K) (c : ℕ) (forms : ℕ → LinearForm K) (i pivot : ℕ) : LinearForm K :=
  (List.range' (pivot + 1) (c - (pivot + 1))).foldl
    (fun form j =>
      if Scalar.isZero (g i j) then form
      else form.addScaled visit (forms j) (Scalar.neg (g i j)))
    (LinearForm.constant (g i c))

/-- The forms after the unknown of one row was resolved. -/
def resolveRow (g : Grid K) (c : ℕ) (forms : ℕ → LinearForm K) (i : ℕ) : ℕ → LinearForm K :=
  match g.leading? c i with
  | none => forms
  | some pivot => Function.update forms pivot (rowForm visit g c forms i pivot)

/-- The forms after the unknowns of the first rows were resolved, from the last row upwards. -/
def resolveRows (g : Grid K) (c : ℕ) (forms : ℕ → LinearForm K) : ℕ → ℕ → LinearForm K
  | 0 => forms
  | count + 1 => resolveRows g c (resolveRow visit g c forms count) count

end Grid

namespace Staircase

variable {g : Grid K} {rank : ℕ} {pivot : ℕ → ℕ} (visit : LinearForm K → List (Parameter × K))
  (forms : ℕ → LinearForm K)

/-- A row with a pivot resolves its unknown. -/
theorem resolveRow_of_lt (h : Staircase g r c rank pivot) {i : ℕ} (hi : i < rank) :
    g.resolveRow visit c forms i
      = Function.update forms (pivot i) (g.rowForm visit c forms i (pivot i)) := by
  rw [Grid.resolveRow, h.leading?_of_lt hi]

/-- A zero row resolves nothing. -/
theorem resolveRow_of_le (h : Staircase g r c rank pivot) {i : ℕ} (hi : rank ≤ i) (hr : i < r) :
    g.resolveRow visit c forms i = forms := by
  rw [Grid.resolveRow, h.leading?_of_le hi hr]

end Staircase

namespace LinearSystem

open DenseMatrix

omit [Scalar K] in
/-- The entries to the right of a pivot, with their columns. -/
theorem zipIdx_drop_row (f : Grid K) (i pivot : ℕ) :
    ((List.range c).map (f i)).zipIdx.drop (pivot + 1)
      = (List.range' (pivot + 1) (c - (pivot + 1))).map fun j => (f i j, j) := by
  refine List.ext_getElem (by simp) fun j _ _ => ?_
  simp [List.getElem_drop, Nat.add_comm]

section Resolution

variable (visit : LinearForm K → List (Parameter × K))

omit [Scalar K] in
theorem setForm_map (forms : ℕ → LinearForm K) {pivot : ℕ} (hpivot : pivot < c)
    (form : LinearForm K) :
    setForm ((List.range c).map forms) pivot form
      = .ok ((List.range c).map (Function.update forms pivot form)) := by
  rw [setForm, if_pos (by simpa using hpivot)]
  refine congrArg Except.ok (List.ext_getElem (by simp) fun j _ _ => ?_)
  rcases eq_or_ne j pivot with rfl | hj
  · simp
  · simp [hj, Ne.symm hj]

theorem resolveRow_tabulate (g : Grid K) (forms : ℕ → LinearForm K) {i : ℕ} (hi : i < r) :
    LinearSystem.resolveRow visit (tabulate r c g) (DenseVector.tabulate r fun i => g i c)
        ((List.range c).map forms) i
      = .ok ((List.range c).map (g.resolveRow visit c forms i)) := by
  rw [LinearSystem.resolveRow, row_tabulate g hi, ok_bind, Grid.findIdx?_row, Grid.resolveRow]
  cases hlead : g.leading? c i with
  | none => rfl
  | some pivot =>
    have hpivot : pivot < c := (Grid.leading?_eq_some.1 hlead).1
    have hstep : ∀ form : LinearForm K,
        ∀ t ∈ (List.range' (pivot + 1) (c - (pivot + 1))).map fun j => (g i j, j),
          substitute visit ((List.range c).map forms) form t
            = .ok (if Scalar.isZero t.1 then form
                else form.addScaled visit (forms t.2) (Scalar.neg t.1)) := by
      intro form t ht
      obtain ⟨j, hj, rfl⟩ := List.mem_map.1 ht
      obtain ⟨-, hlt⟩ := List.mem_range'_1.1 hj
      have hjc : j < c := by omega
      rw [substitute]
      split_ifs with hzero
      · rfl
      · simp [hjc]
    dsimp only
    rw [DenseVector.get_tabulate _ hi, ok_bind, zipIdx_drop_row, foldlM_eq_ok hstep, ok_bind,
      List.foldl_map, setForm_map forms hpivot]
    rfl

theorem resolveRows_tabulate (g : Grid K) (forms : ℕ → LinearForm K) {count : ℕ}
    (hcount : count ≤ r) :
    LinearSystem.resolveRows visit (tabulate r c g) (DenseVector.tabulate r fun i => g i c)
        ((List.range c).map forms) count
      = .ok ((List.range c).map (g.resolveRows visit c forms count)) := by
  induction count generalizing forms with
  | zero => rfl
  | succ count ih =>
    rw [LinearSystem.resolveRows, resolveRow_tabulate visit g forms hcount, ok_bind,
      ih _ (Nat.le_of_succ_le hcount), Grid.resolveRows]

/-- **The resolution never fails**, and resolves forms row by row. -/
theorem resolve_tabulate (g : Grid K) :
    resolve visit (tabulate r c g) (DenseVector.tabulate r fun i => g i c)
      = .ok ((List.range c).map (g.resolveRows visit c LinearForm.free r)) :=
  resolveRows_tabulate visit g LinearForm.free (Nat.le_refl r)

end Resolution

/-! ### Solutions -/

omit [Scalar K] in
/-- The halves into which an augmented matrix is cut. -/
theorem splitAtCol_augmented (g : Grid K) :
    (tabulate r (c + 1) g).splitAtCol c
      = .ok (tabulate r c g, tabulate r 1 fun i _ => g i c) := by
  rw [splitAtCol_tabulate g (Nat.le_add_right c 1), Nat.add_sub_cancel_left]
  refine congrArg (fun m => Except.ok (tabulate r c g, m)) (tabulate_congr fun i _ j hj => ?_)
  rw [Nat.lt_one_iff.1 hj, Nat.add_zero]

omit [Scalar K] in
/-- A matrix with one column is stored like a vector. -/
theorem toList_column (y : ℕ → K) :
    (⟨(tabulate r 1 fun i _ => y i).entries.toList⟩ : DenseVector K)
      = DenseVector.tabulate r y := by
  rw [toList_tabulate, DenseVector.tabulate]
  exact congrArg DenseVector.mk (List.map_eq_flatMap).symm

section Solutions

variable (visit : LinearForm K → List (Parameter × K)) {f : Grid K}

/-- A system whose inspection fails has no solution. -/
theorem solutionVia_of_inconsistent {row : ℕ}
    (h : inspect (tabulate r c (f.reduced r (c + 1)))
      (DenseVector.tabulate r fun i => f.reduced r (c + 1) i c) 0 0 r = .ok (.inconsistent row)) :
    (solutionVia visit ⟨tabulate r (c + 1) f⟩).outcome = .ok .empty := by
  simp only [solutionVia, solutionWith, Traced.outcome_bind, Traced.outcome_report, ok_bind,
    reducedRowEchelonForm_tabulate, nvars, ncols_tabulate, nrows_tabulate, Nat.add_sub_cancel,
    Traced.outcome_lift, splitAtCol_augmented, toList_column, h, Traced.outcome_pure]

/-- A consistent system whose coefficients are reduced to the identity has the constants as its
solution, and any other one the flat of the resolved forms. -/
theorem solutionVia_of_consistent {rank : ℕ}
    (h : inspect (tabulate r c (f.reduced r (c + 1)))
      (DenseVector.tabulate r fun i => f.reduced r (c + 1) i c) 0 0 r = .ok (.consistent rank)) :
    (solutionVia visit ⟨tabulate r (c + 1) f⟩).outcome
      = .ok (if c ≤ r ∧ (tabulate r c (f.reduced r (c + 1))).isIdentity = true then
          .point (DenseVector.tabulate c fun i => f.reduced r (c + 1) i c)
        else .space (flatOfForms ((List.range c).map
          ((f.reduced r (c + 1)).resolveRows visit c LinearForm.free r)))) := by
  simp only [solutionVia, solutionWith, Traced.outcome_bind, Traced.outcome_report, ok_bind,
    reducedRowEchelonForm_tabulate, nvars, ncols_tabulate, nrows_tabulate, Nat.add_sub_cancel,
    Traced.outcome_lift, splitAtCol_augmented, toList_column, h]
  split_ifs with hpoint
  · simp only [Traced.outcome_bind, Traced.outcome_report, ok_bind, Traced.outcome_lift,
      DenseVector.initial_tabulate _ hpoint.1, Traced.outcome_pure]
    rfl
  · simp only [Traced.outcome_bind, Traced.outcome_report, ok_bind, Traced.outcome_lift,
      resolve_tabulate, Traced.outcome_pure]

end Solutions

end LinearSystem

end LinearSystems
