import LinearSystems.Proofs.Elimination.Staircase
import Mathlib.Algebra.BigOperators.Group.Finset.Basic

/-!
# Columns without a pivot

The columns of a staircase are those of its pivots and the free ones. `freeColumn` counts the free
columns from left to right, `sum_columns` splits a sum over all columns accordingly, and so there
are as many free columns as the rank falls short of the width (`length_freeColumns`). With none of
them left, the pivots stand on the diagonal (`Staircase.pivot_eq_self`).
-/

namespace LinearSystems

/-- The columns without a pivot, from left to right. -/
def freeColumns (c rank : ℕ) (pivot : ℕ → ℕ) : List ℕ :=
  (List.range c).filter fun j => decide (∀ i < rank, pivot i ≠ j)

/-- A column without a pivot, by its number. -/
def freeColumn (c rank : ℕ) (pivot : ℕ → ℕ) (a : ℕ) : ℕ :=
  (freeColumns c rank pivot).getD a 0

section Columns

variable {c rank : ℕ} {pivot : ℕ → ℕ} {a : ℕ}

/-- A column is that of a pivot, or it is free. -/
theorem exists_pivot_or_free (rank : ℕ) (pivot : ℕ → ℕ) (j : ℕ) :
    (∃ i < rank, pivot i = j) ∨ ∀ i < rank, pivot i ≠ j := by
  rcases Classical.em (∃ i < rank, pivot i = j) with hpivot | hnone
  · exact Or.inl hpivot
  · exact Or.inr fun i hi heq => hnone ⟨i, hi, heq⟩

theorem mem_freeColumns {j : ℕ} :
    j ∈ freeColumns c rank pivot ↔ j < c ∧ ∀ i < rank, pivot i ≠ j := by
  rw [freeColumns, List.mem_filter, List.mem_range, decide_eq_true_iff]

theorem freeColumn_eq_getElem (h : a < (freeColumns c rank pivot).length) :
    freeColumn c rank pivot a = (freeColumns c rank pivot)[a] := by
  rw [freeColumn, List.getD_eq_getElem?_getD, List.getElem?_eq_getElem h, Option.getD_some]

theorem freeColumns_eq_map :
    freeColumns c rank pivot
      = (List.range (freeColumns c rank pivot).length).map (freeColumn c rank pivot) := by
  refine List.ext_getElem (by simp) fun a ha _ => ?_
  rw [List.getElem_map, List.getElem_range, freeColumn_eq_getElem ha]

theorem freeColumn_mem (h : a < (freeColumns c rank pivot).length) :
    freeColumn c rank pivot a ∈ freeColumns c rank pivot := by
  rw [freeColumn_eq_getElem h]
  exact List.getElem_mem h

theorem freeColumn_lt (h : a < (freeColumns c rank pivot).length) :
    freeColumn c rank pivot a < c :=
  (mem_freeColumns.1 (freeColumn_mem h)).1

theorem pivot_ne_freeColumn (h : a < (freeColumns c rank pivot).length) {i : ℕ} (hi : i < rank) :
    pivot i ≠ freeColumn c rank pivot a :=
  (mem_freeColumns.1 (freeColumn_mem h)).2 i hi

theorem freeColumn_inj {b : ℕ} (ha : a < (freeColumns c rank pivot).length)
    (hb : b < (freeColumns c rank pivot).length)
    (heq : freeColumn c rank pivot a = freeColumn c rank pivot b) : a = b := by
  rw [freeColumn_eq_getElem ha, freeColumn_eq_getElem hb] at heq
  exact (List.nodup_range.filter _).getElem_inj_iff.1 heq

theorem exists_freeColumn {j : ℕ} (hj : j < c) (hne : ∀ i < rank, pivot i ≠ j) :
    ∃ a < (freeColumns c rank pivot).length, freeColumn c rank pivot a = j := by
  obtain ⟨a, ha, rfl⟩ := List.getElem_of_mem (mem_freeColumns.2 ⟨hj, hne⟩)
  exact ⟨a, ha, freeColumn_eq_getElem ha⟩

end Columns

variable {K : Type} [Scalar K] {f : Grid K} {r c rank : ℕ} {pivot : ℕ → ℕ}

namespace Staircase

/-- A sum over all columns, by the columns of the pivots and the free ones. -/
theorem sum_columns {M : Type} [AddCommMonoid M] (h : Staircase f r c rank pivot) (x : ℕ → M) :
    ∑ j ∈ Finset.range c, x j
      = ∑ i ∈ Finset.range rank, x (pivot i)
        + ∑ a ∈ Finset.range (freeColumns c rank pivot).length,
            x (freeColumn c rank pivot a) := by
  rw [← Finset.sum_filter_add_sum_filter_not (Finset.range c) (fun j => ∃ i < rank, pivot i = j)]
  congr 1
  · -- the rows with a pivot, one for each column of a pivot
    symm
    refine Finset.sum_nbij pivot (fun i hi => ?_) (fun i hi k hk heq => ?_) (fun j hj => ?_)
      fun i _ => rfl
    · have hlt := Finset.mem_range.1 hi
      exact Finset.mem_filter.2 ⟨Finset.mem_range.2 (h.pivot_lt i hlt), i, hlt, rfl⟩
    · exact h.pivot_inj (Finset.mem_range.1 hi) (Finset.mem_range.1 hk) heq
    · obtain ⟨-, i, hi, rfl⟩ := Finset.mem_filter.1 hj
      exact ⟨i, Finset.mem_coe.2 (Finset.mem_range.2 hi), rfl⟩
  · -- the numbers of the free columns
    symm
    refine Finset.sum_nbij (freeColumn c rank pivot) (fun a ha => ?_) (fun a ha b hb heq => ?_)
      (fun j hj => ?_) fun a _ => rfl
    · have hlt := Finset.mem_range.1 ha
      refine Finset.mem_filter.2 ⟨Finset.mem_range.2 (freeColumn_lt hlt), ?_⟩
      rintro ⟨i, hi, heq⟩
      exact pivot_ne_freeColumn hlt hi heq
    · exact freeColumn_inj (Finset.mem_range.1 ha) (Finset.mem_range.1 hb) heq
    · obtain ⟨hj, hnone⟩ := Finset.mem_filter.1 hj
      obtain ⟨a, ha, rfl⟩ := exists_freeColumn (Finset.mem_range.1 hj)
        fun i hi heq => hnone ⟨i, hi, heq⟩
      exact ⟨a, Finset.mem_coe.2 (Finset.mem_range.2 ha), rfl⟩

/-- **The free columns are as many as the rank falls short of the width.** -/
theorem length_freeColumns (h : Staircase f r c rank pivot) :
    (freeColumns c rank pivot).length = c - rank := by
  have hcount := h.sum_columns fun _ => 1
  simp only [← Finset.card_eq_sum_ones, Finset.card_range] at hcount
  omega

/-- A pivot leaves room for the pivots of the rows below. -/
theorem pivot_add_le (h : Staircase f r c rank pivot) {i : ℕ} (hi : i < rank) :
    pivot i + (rank - i) ≤ c := by
  induction hd : rank - i - 1 generalizing i with
  | zero =>
    have hlt := h.pivot_lt i hi
    omega
  | succ d ih =>
    have hnext := ih (i := i + 1) (by omega) (by omega)
    have hlt := h.pivot_lt_pivot i (i + 1) (Nat.lt_succ_self i) (by omega)
    omega

/-- If every column has a pivot, the pivots stand on the diagonal. -/
theorem pivot_eq_self (h : Staircase f r c c pivot) {i : ℕ} (hi : i < c) : pivot i = i := by
  have hle := h.le_pivot hi
  have hroom := h.pivot_add_le hi
  omega

end Staircase

end LinearSystems
