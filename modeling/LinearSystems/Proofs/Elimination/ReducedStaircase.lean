import LinearSystems.Proofs.Elimination.Staircase

/-!
# Reduced staircases and their recognition

A staircase is reduced if its pivots count as one and whatever stands above them counts as zero.
The test for reduced row echelon forms visits the rows from the top. What it has seen when it
accepts the first rows is a reduced staircase of these rows, which the next row extends
(`ReducedStaircase.addZeroRow`, `ReducedStaircase.addRow`); `isReducedFrom_tabulate` is one step
of it.

`isReducedRowEchelon_iff`: the test accepts the reduced staircases and nothing else. No fact about
the arithmetic is used. Whether back-substitution ends in one depends on the arithmetic and is not
decided here.
-/

namespace LinearSystems

variable {K : Type} [Scalar K] {r c : ℕ}

/-- A staircase whose pivots count as one and stand alone in their columns. -/
structure ReducedStaircase (f : Grid K) (nrows ncols rank : ℕ) (pivot : ℕ → ℕ) : Prop extends
    Staircase f nrows ncols rank pivot where
  one : ∀ i < rank, Scalar.isOne (f i (pivot i)) = true
  zero_above : ∀ i < rank, ∀ k < i, Scalar.isZero (f k (pivot i)) = true

namespace ReducedStaircase

variable {f : Grid K} {rank : ℕ} {pivot : ℕ → ℕ}

/-- In the column of a pivot, everything but the pivot counts as zero. -/
theorem zero_beside (h : ReducedStaircase f r c rank pivot) {i k : ℕ} (hi : i < rank) (hk : k < r)
    (hne : k ≠ i) : Scalar.isZero (f k (pivot i)) = true := by
  rcases Nat.lt_or_gt_of_ne hne with hlt | hgt
  · exact h.zero_above i hi k hlt
  · exact h.zero_under hgt hk hi

/-- Without rows there are no pivots. -/
theorem start (f : Grid K) (c : ℕ) (pivot : ℕ → ℕ) : ReducedStaircase f 0 c 0 pivot where
  rank_le := Nat.le_refl 0
  pivot_lt i hi := absurd hi (Nat.not_lt_zero i)
  pivot_lt_pivot _ k _ hk := absurd hk (Nat.not_lt_zero k)
  nonzero i hi := absurd hi (Nat.not_lt_zero i)
  zero_left i hi := absurd hi (Nat.not_lt_zero i)
  zero_below i _ hi := absurd hi (Nat.not_lt_zero i)
  one i hi := absurd hi (Nat.not_lt_zero i)
  zero_above i hi := absurd hi (Nat.not_lt_zero i)

/-- A zero row may follow. -/
theorem addZeroRow {i : ℕ} (h : ReducedStaircase f i c rank pivot)
    (hlead : f.leading? c i = none) : ReducedStaircase f (i + 1) c rank pivot where
  rank_le := Nat.le_succ_of_le h.rank_le
  pivot_lt := h.pivot_lt
  pivot_lt_pivot := h.pivot_lt_pivot
  nonzero := h.nonzero
  zero_left := h.zero_left
  zero_below k hk hki := by
    rcases Nat.lt_succ_iff_lt_or_eq.1 hki with hlt | rfl
    · exact h.zero_below k hk hlt
    · exact Grid.leading?_eq_none.1 hlead
  one := h.one
  zero_above := h.zero_above

/-- Below rows that all have a pivot, a row may follow that begins further to the right, with an
entry that counts as one and has nothing above it. -/
theorem addRow {i j : ℕ} (h : ReducedStaircase f i c i pivot) (hlead : f.leading? c i = some j)
    (hright : ∀ k < i, pivot k < j) (hone : Scalar.isOne (f i j) = true)
    (habove : ∀ k < i, Scalar.isZero (f k j) = true) :
    ReducedStaircase f (i + 1) c (i + 1) (Function.update pivot i j) := by
  obtain ⟨hj, hnonzero, hleft⟩ := Grid.leading?_eq_some.1 hlead
  have hnew : Function.update pivot i j i = j := Function.update_self i j pivot
  -- whatever holds of the old pivots and of the new one holds of all
  have hsplit : ∀ P : ℕ → ℕ → Prop, (∀ k < i, P k (pivot k)) → P i j →
      ∀ k < i + 1, P k (Function.update pivot i j k) := by
    intro P hold hlast k hk
    rcases Nat.lt_succ_iff_lt_or_eq.1 hk with hlt | rfl
    · rw [Function.update_of_ne hlt.ne]
      exact hold k hlt
    · rw [hnew]
      exact hlast
  have hrows := hsplit (fun k p => p < c ∧ Scalar.isZero (f k p) = false ∧
      (∀ b < p, Scalar.isZero (f k b) = true) ∧ Scalar.isOne (f k p) = true ∧
      ∀ l < k, Scalar.isZero (f l p) = true)
    (fun k hk => ⟨h.pivot_lt k hk, h.nonzero k hk, h.zero_left k hk, h.one k hk,
      h.zero_above k hk⟩) ⟨hj, hnonzero, hleft, hone, habove⟩
  refine ⟨⟨Nat.le_refl _, fun k hk => (hrows k hk).1, fun k l hkl hl => ?_,
    fun k hk => (hrows k hk).2.1, fun k hk => (hrows k hk).2.2.1,
    fun k hk hki => absurd hki (Nat.not_lt.2 hk)⟩, fun k hk => (hrows k hk).2.2.2.1,
    fun k hk => (hrows k hk).2.2.2.2⟩
  have hki : k < i := by omega
  rw [Function.update_of_ne hki.ne]
  exact hsplit (fun l p => k < l → pivot k < p) (fun l hli hkl => h.pivot_lt_pivot k l hkl hli)
    (fun _ => hright k hki) l hl hkl

end ReducedStaircase

namespace DenseMatrix

open Grid

theorem columnHasOther_tabulate (f : Grid K) (i : ℕ) {j : ℕ} (hj : j < c) :
    (tabulate r c f).columnHasOther i j
      = .ok ((List.range r).any fun k => !(k == i) && !Scalar.isZero (f k j)) := by
  have htest : ∀ k < r,
      (if k = i then .ok false else (tabulate r c f).nonzeroAt k j : Except Fault Bool)
        = .ok (!(k == i) && !Scalar.isZero (f k j)) := by
    intro k hk
    rcases eq_or_ne k i with rfl | hki
    · simp
    · rw [if_neg hki, nonzeroAt_tabulate f hk hj]
      simp [hki]
  rw [columnHasOther, findIndex_eq_ok fun k _ hlt => htest k (by simpa using hlt), map_ok,
    ← List.range_eq_range', nrows_tabulate, List.isSome_find?]

/-- One step of the test. A zero row is passed over, and remembered. A row with a pivot has to
come before all zero rows and to begin to the right of the row above, and its first entry has to
count as one and to stand alone in its column. -/
theorem isReducedFrom_tabulate (f : Grid K) {i : ℕ} (hi : i < r) (zeroSeen : Bool)
    (last : Option ℕ) (count : ℕ) :
    (tabulate r c f).isReducedFrom i zeroSeen last (count + 1) =
      match f.leading? c i with
      | none => (tabulate r c f).isReducedFrom (i + 1) true last count
      | some j =>
        if zeroSeen = false ∧ (∀ p ∈ last, p < j) ∧ Scalar.isOne (f i j) = true ∧
            ∀ k < r, k ≠ i → Scalar.isZero (f k j) = true
        then (tabulate r c f).isReducedFrom (i + 1) false (some j) count
        else .ok false := by
  rw [isReducedFrom, leadingColumn_tabulate f hi, ok_bind]
  cases hlead : f.leading? c i with
  | none => rfl
  | some j =>
    obtain ⟨hj, -, -⟩ := Grid.leading?_eq_some.1 hlead
    have horder : last.any (fun p => decide (j ≤ p)) = false ↔ ∀ p ∈ last, p < j := by
      cases last <;> simp
    have halone : ((List.range r).any fun k => !(k == i) && !Scalar.isZero (f k j)) = false ↔
        ∀ k < r, k ≠ i → Scalar.isZero (f k j) = true := by
      simp [List.any_eq_false]
    dsimp only
    rw [get_tabulate f hi hj, ok_bind, columnHasOther_tabulate f i hj, ok_bind]
    simp only [← horder, ← halone]
    cases zeroSeen <;> cases last.any (fun p => decide (j ≤ p)) <;> cases Scalar.isOne (f i j) <;>
      cases (List.range r).any fun k => !(k == i) && !Scalar.isZero (f k j) <;> rfl

/-- The test of the rows from row `i` on accepts a reduced staircase: the leading column of the row
above, if there is one, is the pivot of that row, and a zero row was seen only below the rank. -/
theorem isReducedFrom_eq_true {f : Grid K} {rank : ℕ} {pivot : ℕ → ℕ}
    (h : ReducedStaircase f r c rank pivot) (count : ℕ) {i : ℕ} (hcount : i + count = r)
    {zeroSeen : Bool} {last : Option ℕ} (hzero : zeroSeen = true → rank ≤ i)
    (hlast : ∀ p, last = some p → ∃ k < i, k < rank ∧ p = pivot k) :
    (tabulate r c f).isReducedFrom i zeroSeen last count = .ok true := by
  induction count generalizing i zeroSeen last with
  | zero => rfl
  | succ count ih =>
    have hi : i < r := by omega
    rw [isReducedFrom_tabulate f hi]
    rcases Nat.lt_or_ge i rank with hrank | hbelow
    · -- none of the reasons to refuse a row with a pivot applies
      have hseen : zeroSeen = false := by
        by_contra hseen
        exact absurd (hzero (by simpa using hseen)) (Nat.not_le.2 hrank)
      have horder : ∀ p ∈ last, p < pivot i := by
        intro p hp
        obtain ⟨k, hki, -, rfl⟩ := hlast p hp
        exact h.pivot_lt_pivot k i hki hrank
      rw [h.leading?_of_lt hrank]
      dsimp only
      rw [if_pos ⟨hseen, horder, h.one i hrank, fun k hk hne => h.zero_beside hrank hk hne⟩]
      exact ih (by omega) (fun hfalse => by cases hfalse) fun p hp =>
        ⟨i, Nat.lt_succ_self i, hrank, (Option.some.inj hp).symm⟩
    · -- a zero row is remembered, and the leading column of the row above is kept
      rw [h.leading?_of_le hbelow hi]
      refine ih (by omega) (fun _ => Nat.le_succ_of_le hbelow) fun p hp => ?_
      obtain ⟨k, hki, hk⟩ := hlast p hp
      exact ⟨k, Nat.lt_succ_of_lt hki, hk⟩

/-- The test of the rows from row `i` on gives an answer, and accepts only if the reduced staircase
of the rows above goes on: there every row has a pivot as long as no zero row was seen, and the
leading column of the last of them stands to the right of no other pivot. -/
theorem exists_isReducedFrom {f : Grid K} {rank : ℕ} {pivot : ℕ → ℕ} (count : ℕ) {i : ℕ}
    (hcount : i + count = r) (h : ReducedStaircase f i c rank pivot) (zeroSeen : Bool)
    (last : Option ℕ) (hzero : zeroSeen = false → rank = i)
    (hlast : ∀ k < rank, ∃ p ∈ last, pivot k ≤ p) :
    ∃ b, (tabulate r c f).isReducedFrom i zeroSeen last count = .ok b ∧
      (b = true → ∃ rank pivot, ReducedStaircase f r c rank pivot) := by
  induction count generalizing i rank pivot zeroSeen last with
  | zero =>
    obtain rfl : i = r := hcount
    exact ⟨true, rfl, fun _ => ⟨rank, pivot, h⟩⟩
  | succ count ih =>
    rw [isReducedFrom_tabulate f (show i < r by omega)]
    cases hlead : f.leading? c i with
    | none =>
      exact ih (by omega) (h.addZeroRow hlead) true last (fun hfalse => by cases hfalse) hlast
    | some j =>
      dsimp only
      split_ifs with htest
      · obtain ⟨hseen, horder, hone, halone⟩ := htest
        obtain rfl := hzero hseen
        have hright : ∀ k < rank, pivot k < j := by
          intro k hk
          obtain ⟨p, hp, hle⟩ := hlast k hk
          exact hle.trans_lt (horder p hp)
        refine ih (by omega)
          (h.addRow hlead hright hone fun k hk => halone k (by omega) hk.ne) false (some j)
          (fun _ => rfl) fun k hk => ⟨j, rfl, ?_⟩
        rcases Nat.lt_succ_iff_lt_or_eq.1 hk with hlt | rfl
        · rw [Function.update_of_ne hlt.ne]
          exact (hright k hlt).le
        · rw [Function.update_self]
      · exact ⟨false, rfl, fun hfalse => by cases hfalse⟩

/-- **A reduced staircase passes the test** for reduced row echelon forms. -/
theorem isReducedRowEchelon_tabulate {f : Grid K} {rank : ℕ} {pivot : ℕ → ℕ}
    (h : ReducedStaircase f r c rank pivot) :
    (tabulate r c f).isReducedRowEchelon = .ok true :=
  isReducedFrom_eq_true h r (Nat.zero_add r) (fun hfalse => by cases hfalse)
    fun p hp => by cases hp

/-- **The test recognizes the reduced staircases**: it always gives an answer, and accepts these
matrices and no others. -/
theorem isReducedRowEchelon_iff (f : Grid K) :
    ∃ b, (tabulate r c f).isReducedRowEchelon = .ok b ∧
      (b = true ↔ ∃ rank pivot, ReducedStaircase f r c rank pivot) := by
  obtain ⟨b, htest, haccepted⟩ := exists_isReducedFrom r (Nat.zero_add r)
    (ReducedStaircase.start f c id) false none (fun _ => rfl)
    fun k hk => absurd hk (Nat.not_lt_zero k)
  refine ⟨b, htest, haccepted, ?_⟩
  rintro ⟨rank, pivot, h⟩
  exact Except.ok.inj (htest.symm.trans (isReducedRowEchelon_tabulate h))

end DenseMatrix

end LinearSystems
