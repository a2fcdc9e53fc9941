import LinearSystems.Proofs.Binary.Arithmetic
import LinearSystems.Proofs.Binary.Scalar
import LinearSystems.Proofs.Elimination.FixedPoints
import LinearSystems.Proofs.Rational.Cramer

/-!
# Singular matrices of integers over floating-point numbers

The elimination of a matrix of integers over floating-point numbers is that of the same matrix over
the rationals, as long as no update of an entry leaves a residue. An update takes a quotient, a
product and a difference, each rounded once (`roundedUpdate?`), and it may well be exact where none
of the three is: a third of six is two.

* `Mirrors`: the two eliminations have come to the same place, entry by entry. A column keeps it
  that way for every row whose updates are exact (`Mirrors.value?_step`), so an elimination that
  makes only exact updates finds the same rank (`rank_eq_of_updatesExactly`).
* A row of zeros is never chosen for a pivot, whatever the other rows are
  (`Sweep.rank_lt_of_zero_row`). So a single row that vanishes decides that a matrix is singular,
  and what is rounded in the other rows, and later, does not matter.

Together: if the elimination over the rationals brings forth a row of zeros, and the updates up to
there are exact, then the floating-point matrix is singular as well
(`singular_of_vanishesExactly`). A row that is a multiple of the first one is such a row
(`vanishesExactly_of_multiple`). Of the determinant it can be said that it is a zero or a NaN: the
product of the diagonal may have overflowed before it meets the zero.

No more is true. The quotient `1 / 49` times 49 is rounded to a number below one, so that a
matrix of two proportional rows keeps a second pivot (`regular_of_residue`).
-/

namespace LinearSystems

/-! ### Rows of zeros -/

section ZeroRows

variable {K : Type} [Scalar K] {r c : ℕ}

/-- A row of zeros that is not used so far remains one, though perhaps in another place. -/
theorem Sweep.exists_zero_row_step {s : Sweep K} {col i : ℕ} (hcol : col < c) (hi : s.rank ≤ i)
    (hr : i < r) (hzero : ∀ j < c, Scalar.isZero (s.grid i j) = true) :
    ∃ k, (s.step r col).rank ≤ k ∧ k < r ∧
      ∀ j < c, Scalar.isZero ((s.step r col).grid k j) = true := by
  cases hpivot : s.pivotRow? r col with
  | none =>
    rw [step_of_none hpivot]
    exact ⟨i, hi, hr, hzero⟩
  | some k =>
    obtain ⟨hle, hk, hnonzero⟩ := pivotRow?_eq_some hpivot
    have hne : i ≠ k := by
      rintro rfl
      rw [hzero col hcol] at hnonzero
      exact Bool.noConfusion hnonzero
    have hbelow : s.rank < Equiv.swap s.rank k i := by
      rw [Equiv.swap_apply_def]
      split_ifs with hrank
      · omega
      · omega
    have hrow : (s.bringUp col k).grid (Equiv.swap s.rank k i) = s.grid i :=
      congrArg s.grid (Equiv.swap_apply_self s.rank k i)
    rw [step_of_some hpivot]
    refine ⟨Equiv.swap s.rank k i, hbelow,
      (swap_mem_rows ⟨le_rfl, hle.trans_lt hk⟩ ⟨hle, hk⟩ ⟨hi, hr⟩).2, fun j hj => ?_⟩
    dsimp only
    rw [Grid.clearBelow, if_pos hbelow, hrow, Grid.cancel_of_isZero (hzero col hcol)]
    exact hzero j hj

/-- **A row of zeros that is not used for a pivot will not be.** -/
theorem Sweep.rank_lt_of_zero_row {f : Grid K} {m i : ℕ} (hm : m ≤ c)
    (hi : (after r f m).rank ≤ i) (hr : i < r)
    (hzero : ∀ j < c, Scalar.isZero ((after r f m).grid i j) = true) : (after r f c).rank < r := by
  have hremains : ∀ n, m ≤ n → n ≤ c → ∃ k, (after r f n).rank ≤ k ∧ k < r ∧
      ∀ j < c, Scalar.isZero ((after r f n).grid k j) = true := by
    intro n hn
    induction n, hn using Nat.le_induction with
    | base => exact fun _ => ⟨i, hi, hr, hzero⟩
    | succ n hn ih =>
      intro hnc
      obtain ⟨k, hk, hkr, hkzero⟩ := ih (Nat.le_of_succ_le hnc)
      rw [after_succ]
      exact exists_zero_row_step hnc hk hkr hkzero
  obtain ⟨k, hk, hkr, -⟩ := hremains c hm le_rfl
  exact hk.trans_lt hkr

end ZeroRows

/-! ### Exact updates -/

namespace Binary

variable {φ : BinaryFormat} {r c : ℕ}

/-- What an elimination over a format makes of the number `entry`: the quotient `lower / pivot`, its
product with the number `upper` of the pivot row, and the difference are rounded one after the
other. -/
def roundedUpdate? (φ : BinaryFormat) (entry upper lower pivot : ℚ) : Option ℚ :=
  (nearest? φ (lower / pivot)).bind fun factor =>
    (nearest? φ (upper * factor)).bind fun product => nearest? φ (entry - product)

/-- The updates of row `i` in the next column leave no residue. (A row above the pivot, and one that
is zero in the column, is not updated.) -/
def UpdatesExactly (φ : BinaryFormat) (r c : ℕ) (s : Sweep ℚ) (col i : ℕ) : Prop :=
  ∀ k ∈ s.pivotRow? r col, s.rank < i → (s.bringUp col k).grid i col ≠ 0 →
    ∀ j < c, col < j →
      roundedUpdate? φ ((s.bringUp col k).grid i j) ((s.bringUp col k).grid s.rank j)
          ((s.bringUp col k).grid i col) ((s.bringUp col k).grid s.rank col)
        = some ((s.bringUp col k).grid i j - (s.bringUp col k).grid s.rank j *
            ((s.bringUp col k).grid i col / (s.bringUp col k).grid s.rank col))

instance (φ : BinaryFormat) (r c : ℕ) (s : Sweep ℚ) (col i : ℕ) :
    Decidable (UpdatesExactly φ r c s col i) :=
  inferInstanceAs (Decidable (∀ k ∈ s.pivotRow? r col, _))

/-- An update of elements is one of their values. -/
theorem value?_subMul (hφ : 0 < φ.exponentBias) {entry upper lower pivot : Binary φ}
    {a b d p : ℚ} (hentry : entry.value? = some a) (hupper : upper.value? = some b)
    (hlower : lower.value? = some d) (hpivot : pivot.value? = some p) (hp : p ≠ 0) :
    (Scalar.subMul entry upper (Scalar.div lower pivot)).value? = roundedUpdate? φ a b d p := by
  change (entry.sub (upper.mul (lower.div pivot))).value? = _
  rw [value?_sub hφ, value?_mul hφ, value?_div hφ hlower hpivot hp, hentry, hupper, roundedUpdate?]
  cases nearest? φ (d / p) with
  | none => rfl
  | some factor => rfl

theorem value?_zero : (zero : Binary φ).value? = some 0 :=
  value?_eq_some_zero_iff.mpr (@isZero_zero (Binary φ) _ _)

/-- A row that stands for a row of numbers counts as zero where that does. -/
theorem isZero_eq {x : Binary φ} {a : ℚ} (h : x.value? = some a) :
    Scalar.isZero x = Scalar.isZero a := by
  rw [Bool.eq_iff_iff, Rational.isZero_iff]
  change x.isZero = true ↔ _
  rw [isZero_eq_of_value? h, decide_eq_true_eq]

/-! ### Two eliminations in step -/

/-- The two eliminations have found as many pivots, and each element of the one stands for the
number of the other. -/
structure Mirrors (r c : ℕ) (t : Sweep (Binary φ)) (s : Sweep ℚ) : Prop where
  rank_eq : t.rank = s.rank
  value?_eq : ∀ i < r, ∀ j < c, (t.grid i j).value? = some (s.grid i j)

namespace Mirrors

variable {t : Sweep (Binary φ)} {s : Sweep ℚ} {col i j k : ℕ}

/-- The choice of a pivot only asks which entries count as zero. -/
theorem pivotRow?_eq (h : Mirrors r c t s) (hcol : col < c) :
    t.pivotRow? r col = s.pivotRow? r col := by
  rw [Sweep.pivotRow?, Sweep.pivotRow?, h.rank_eq]
  refine List.find?_congr fun k hk => ?_
  have hkr : k < r := by
    obtain ⟨hle, hlt⟩ := List.mem_range'_1.mp hk
    omega
  rw [isZero_eq (h.value?_eq k hkr col hcol)]

theorem rank_step (h : Mirrors r c t s) (hcol : col < c) :
    (t.step r col).rank = (s.step r col).rank := by
  have hpivot := h.pivotRow?_eq hcol
  cases hs : s.pivotRow? r col with
  | none =>
    rw [hs] at hpivot
    rw [Sweep.step_of_none hpivot, Sweep.step_of_none hs, h.rank_eq]
  | some k =>
    rw [hs] at hpivot
    rw [Sweep.step_of_some hpivot, Sweep.step_of_some hs, h.rank_eq]

/-- The exchange of rows is the same on both sides. -/
theorem bringUp (h : Mirrors r c t s) (col : ℕ) (hk : s.rank ≤ k) (hkr : k < r) :
    ∀ i < r, ∀ j < c, ((t.bringUp col k).grid i j).value? = some ((s.bringUp col k).grid i j) := by
  intro i hi j hj
  have hswap := (Sweep.swap_mem_rows ⟨Nat.zero_le _, hk.trans_lt hkr⟩ ⟨Nat.zero_le k, hkr⟩
    ⟨Nat.zero_le i, hi⟩).2
  simp only [Sweep.bringUp, h.rank_eq]
  exact h.value?_eq _ hswap j hj

/-- **One column.** A row whose updates are exact remains in step. -/
theorem value?_step (hφ : 0 < φ.exponentBias) (h : Mirrors r c t s) (hcol : col < c) (hi : i < r)
    (hexact : UpdatesExactly φ r c s col i) (hj : j < c) :
    ((t.step r col).grid i j).value? = some ((s.step r col).grid i j) := by
  have hpivot := h.pivotRow?_eq hcol
  cases hs : s.pivotRow? r col with
  | none =>
    rw [hs] at hpivot
    rw [Sweep.step_of_none hpivot, Sweep.step_of_none hs]
    exact h.value?_eq i hi j hj
  | some k =>
    obtain ⟨hle, hkr, hnonzero⟩ := Sweep.pivotRow?_eq_some hs
    have hvalue := h.bringUp col hle hkr
    have hrank : s.rank < r := hle.trans_lt hkr
    have hpivot_ne : (s.bringUp col k).grid s.rank col ≠ 0 := by
      rw [← Rational.isZero_eq_false_iff]
      simpa [Sweep.bringUp] using hnonzero
    rw [hs] at hpivot
    rw [Sweep.step_of_some hpivot, Sweep.step_of_some hs]
    dsimp only
    rw [h.rank_eq, Grid.clearBelow, Grid.clearBelow]
    split_ifs with hbelow
    case neg => exact hvalue i hi j hj
    case pos =>
      rw [Grid.cancel, Grid.cancel, isZero_eq (hvalue i hi col hcol)]
      split_ifs with hkept heq
      · exact hvalue i hi j hj
      · exact value?_zero
      · simp only [Bool.or_eq_true, decide_eq_true_eq, not_or, Rational.isZero_iff] at hkept
        rw [value?_subMul hφ (hvalue i hi j hj) (hvalue _ hrank j hj) (hvalue i hi col hcol)
          (hvalue _ hrank col hcol) hpivot_ne]
        exact hexact k hs hbelow hkept.1 j hj (by omega)

theorem step (hφ : 0 < φ.exponentBias) (h : Mirrors r c t s) (hcol : col < c)
    (hexact : ∀ i < r, UpdatesExactly φ r c s col i) :
    Mirrors r c (t.step r col) (s.step r col) where
  rank_eq := h.rank_step hcol
  value?_eq i hi _ hj := h.value?_step hφ hcol hi (hexact i hi) hj

/-- **The run.** Two eliminations that start with the same numbers remain in step as long as all
updates are exact. -/
theorem after (hφ : 0 < φ.exponentBias) {f : Grid (Binary φ)} {g : Grid ℚ}
    (hstart : ∀ i < r, ∀ j < c, (f i j).value? = some (g i j)) {n : ℕ} (hn : n ≤ c)
    (hexact : ∀ col < n, ∀ i < r, UpdatesExactly φ r c (Sweep.after r g col) col i) :
    Mirrors r c (Sweep.after r f n) (Sweep.after r g n) := by
  induction n with
  | zero => exact ⟨rfl, hstart⟩
  | succ n ih =>
    rw [Sweep.after_succ, Sweep.after_succ]
    exact (ih (Nat.le_of_succ_le hn) fun col hcol => hexact col (Nat.lt_succ_of_lt hcol)).step hφ hn
      (hexact n (Nat.lt_succ_self n))

end Mirrors

/-! ### Elements that stand for integers -/

theorem value?_ofInt_of_lt (hφ : φ.mantissaBits ≤ φ.exponentBias + 1) {n : ℤ}
    (hn : |n| < 2 ^ φ.mantissaBits) : (ofInt n : Binary φ).value? = some (n : ℚ) := by
  rw [value?_ofInt (exponentBias_pos hφ), nearest?_intCast hφ hn]

end Binary

/-! ### Square matrices of integers -/

/-- The square matrix of the given integers, over any scalars. -/
def DenseMatrix.ofIntegers (K : Type) [Scalar K] (n : ℕ) (a : ℕ → ℕ → ℤ) : DenseMatrix K :=
  tabulate n n fun i j => Scalar.ofInt (a i j)

/-- The integers in a list of rows, and zero elsewhere. -/
def integerGrid (rows : List (List ℤ)) : ℕ → ℕ → ℤ := fun i j =>
  (rows.getD i []).getD j 0

namespace Binary

variable {φ : BinaryFormat} {n : ℕ} {a : ℕ → ℕ → ℤ}

/-- A determinant is a zero or a NaN if the elimination does not find a pivot for each row. -/
theorem exists_determinant_of_rank_lt {f : Grid (Binary φ)} (h : (Sweep.after n f n).rank < n) :
    ∃ det, (DenseMatrix.tabulate n n f).determinant.outcome = .ok det ∧
      (det.isZero = true ∨ det.isNaN = true) := by
  obtain ⟨pivot, hstair⟩ := Sweep.exists_staircase n f n
  obtain ⟨m, rfl⟩ := Nat.exists_eq_succ_of_ne_zero (Nat.ne_of_gt (Nat.zero_lt_of_lt h))
  have hlast : ((Sweep.after (m + 1) f (m + 1)).grid m m).isZero = true :=
    hstair.zero_below m (Nat.lt_succ_iff.mp h) (Nat.lt_succ_self m) m (Nat.lt_succ_self m)
  refine ⟨_, DenseMatrix.outcome_determinant_tabulate f, ?_⟩
  rw [List.range_succ, List.foldl_append, List.foldl_cons, List.foldl_nil]
  have hproduct := isZero_or_isNaN_mul ((List.range m).foldl (fun product x =>
    Scalar.mul product ((Sweep.after (m + 1) f (m + 1)).grid x x)) Scalar.one) hlast
  split_ifs
  · -- a negation has the magnitude of what is negated
    change (neg _).isZero = true ∨ (neg _).isNaN = true
    rw [isZero_iff, isNaN_iff, magnitude_neg, ← isZero_iff, ← isNaN_iff]
    exact hproduct
  · exact hproduct

/-- Some column of the elimination leaves a row of zeros that is not used for a pivot, and the
updates of all rows before that column, and of this row in it, are exact. -/
def VanishesExactly (φ : BinaryFormat) (n : ℕ) (f : Grid ℚ) : Prop :=
  ∃ col < n, ∃ i < n,
    (∀ b < col, ∀ k < n, UpdatesExactly φ n n (Sweep.after n f b) b k) ∧
    UpdatesExactly φ n n (Sweep.after n f col) col i ∧
    (Sweep.after n f (col + 1)).rank ≤ i ∧ ∀ j < n, (Sweep.after n f (col + 1)).grid i j = 0

instance (φ : BinaryFormat) (n : ℕ) (f : Grid ℚ) : Decidable (VanishesExactly φ n f) :=
  inferInstanceAs (Decidable (∃ col < n, ∃ i < n, _))

/-- The two eliminations of a matrix of integers are in step at the start, and remain so as long as
all updates are exact. -/
theorem Mirrors.after_ofInt (hφ : φ.mantissaBits ≤ φ.exponentBias + 1)
    (ha : ∀ i < n, ∀ j < n, |a i j| < 2 ^ φ.mantissaBits) {col : ℕ} (hcol : col ≤ n)
    (hexact : ∀ b < col, ∀ i < n,
      UpdatesExactly φ n n (Sweep.after n (fun i j => (a i j : ℚ)) b) b i) :
    Mirrors n n (Sweep.after n (fun i j => (ofInt (a i j) : Binary φ)) col)
      (Sweep.after n (fun i j => (a i j : ℚ)) col) :=
  Mirrors.after (exponentBias_pos hφ) (fun i hi j hj => value?_ofInt_of_lt hφ (ha i hi j hj)) hcol
    hexact

/-- **As long as nothing is left over, the ranks agree.** An elimination of a matrix of integers
that makes only exact updates finds the rank over the rationals. -/
theorem rank_eq_of_updatesExactly (hφ : φ.mantissaBits ≤ φ.exponentBias + 1)
    (ha : ∀ i < n, ∀ j < n, |a i j| < 2 ^ φ.mantissaBits)
    (hexact : ∀ col < n, ∀ i < n,
      UpdatesExactly φ n n (Sweep.after n (fun i j => (a i j : ℚ)) col) col i) :
    (DenseMatrix.ofIntegers (Binary φ) n a).rank.outcome
      = (DenseMatrix.ofIntegers ℚ n a).rank.outcome := by
  have hmirrors := Mirrors.after_ofInt hφ ha le_rfl hexact
  rw [DenseMatrix.ofIntegers, DenseMatrix.ofIntegers, DenseMatrix.rank_tabulate,
    DenseMatrix.rank_tabulate]
  exact congrArg Except.ok hmirrors.rank_eq

/-- **A row that vanishes exactly decides.** A matrix of integers in whose elimination a row
vanishes exactly is singular over the rationals and over the format. -/
theorem rank_lt_of_vanishesExactly (hφ : φ.mantissaBits ≤ φ.exponentBias + 1)
    (ha : ∀ i < n, ∀ j < n, |a i j| < 2 ^ φ.mantissaBits)
    (h : VanishesExactly φ n fun i j => a i j) :
    (Sweep.after n (fun i j => (a i j : ℚ)) n).rank < n ∧
      (Sweep.after n (fun i j => (ofInt (a i j) : Binary φ)) n).rank < n := by
  obtain ⟨col, hcol, i, hi, hexact, hrow, hrank, hzero⟩ := h
  have hmirrors := Mirrors.after_ofInt hφ ha hcol.le hexact
  refine ⟨Sweep.rank_lt_of_zero_row hcol hrank hi fun j hj => Rational.isZero_iff.mpr (hzero j hj),
    Sweep.rank_lt_of_zero_row hcol ?_ hi fun j hj => ?_⟩
  · rw [Sweep.after_succ, hmirrors.rank_step hcol, ← Sweep.after_succ]
    exact hrank
  · have hvalue := hmirrors.value?_step (exponentBias_pos hφ) hcol hi hrow hj
    rw [Sweep.after_succ, isZero_eq hvalue, Rational.isZero_iff, ← Sweep.after_succ]
    exact hzero j hj

/-- The update of a multiple by what it is a multiple of leaves no residue. -/
theorem roundedUpdate?_of_multiple (hφ : φ.mantissaBits ≤ φ.exponentBias + 1) {k upper pivot : ℤ}
    (hpivot : pivot ≠ 0) (hk : |k| < 2 ^ φ.mantissaBits)
    (hupper : |k * upper| < 2 ^ φ.mantissaBits) :
    roundedUpdate? φ (k * upper) upper (k * pivot) pivot = some 0 := by
  have hquotient : (k * pivot / pivot : ℚ) = k :=
    mul_div_cancel_right₀ _ (Int.cast_ne_zero.mpr hpivot)
  have hproduct : nearest? φ (upper * k) = some (upper * k : ℚ) := by
    rw [mul_comm, ← Int.cast_mul]
    exact nearest?_intCast hφ hupper
  rw [roundedUpdate?, hquotient, nearest?_intCast hφ hk, Option.bind_some, hproduct,
    Option.bind_some, mul_comm (upper : ℚ), sub_self, nearest?_zero]

/-- **A multiple of the first row vanishes exactly**, whatever the other rows are. -/
theorem vanishesExactly_of_multiple (hφ : φ.mantissaBits ≤ φ.exponentBias + 1)
    (ha : ∀ i < n, ∀ j < n, |a i j| < 2 ^ φ.mantissaBits) (hpivot : a 0 0 ≠ 0)
    {i : ℕ} (hpos : 0 < i) (hi : i < n) {k : ℤ} (hrow : ∀ j < n, a i j = k * a 0 j) :
    VanishesExactly φ n fun i j => a i j := by
  have hn : 0 < n := hpos.trans hi
  have hne : (a 0 0 : ℚ) ≠ 0 := Int.cast_ne_zero.mpr hpivot
  have hk : |k| < 2 ^ φ.mantissaBits := by
    calc |k| ≤ |k| * |a 0 0| := le_mul_of_one_le_right (abs_nonneg k) (Int.one_le_abs hpivot)
      _ = |a i 0| := by rw [hrow 0 hn, abs_mul]
      _ < 2 ^ φ.mantissaBits := ha i hi 0 hn
  set start := Sweep.after n (fun i j => (a i j : ℚ)) 0 with hstart
  have hfirst : start.pivotRow? n 0 = some 0 :=
    Sweep.pivotRow?_of_nonzero hn (Rational.isZero_eq_false_iff.mpr hne)
  have hgrid (x y : ℕ) : (start.bringUp 0 0).grid x y = a x y := by
    rw [hstart, Sweep.after_zero, Sweep.bringUp, Equiv.swap_self]
    rfl
  have hcast {j : ℕ} (hj : j < n) : (a i j : ℚ) = k * a 0 j := by rw [hrow j hj, Int.cast_mul]
  have hafter : Sweep.after n (fun i j => (a i j : ℚ)) 1 = start.step n 0 := rfl
  refine ⟨0, hn, i, hi, fun b hb => absurd hb (Nat.not_lt_zero b), ?_, ?_, fun j hj => ?_⟩
  · -- the quotient is the factor between the rows
    intro row hmem _ _ j hj _
    obtain rfl : 0 = row := Option.some.inj (hfirst.symm.trans hmem)
    have hbound : |k * a 0 j| < 2 ^ φ.mantissaBits := hrow j hj ▸ ha i hi j hj
    rw [show start.rank = 0 from rfl, hgrid, hgrid, hgrid, hgrid, hcast hj, hcast hn,
      roundedUpdate?_of_multiple hφ hpivot hk hbound, mul_div_cancel_right₀ _ hne,
      mul_comm (k : ℚ), sub_self]
  · rw [hafter, Sweep.step_of_some hfirst]
    exact hpos
  · have hfactor : (start.bringUp 0 0).grid i 0
        = (start.bringUp 0 0).grid 0 0 * (a i 0 / a 0 0 : ℚ) := by
      rw [hgrid, hgrid, mul_div_cancel₀ _ hne]
    rw [hafter, Sweep.step_of_some hfirst]
    change Grid.clearBelow (start.bringUp 0 0).grid 0 0 i j = 0
    rw [Grid.clearBelow, if_pos hpos, hgrid, hgrid, Rational.div_eq,
      Grid.cancel_eq_sub (fun b hb => absurd hb (Nat.not_lt_zero b)) (by rwa [hgrid]) hfactor,
      hgrid, hgrid, hcast hj, hcast hn, mul_div_cancel_right₀ _ hne, mul_comm, sub_self]

end Binary

/-! ### Double precision -/

/-- **Singular matrices of integers.** If a row vanishes exactly, then the matrix is singular over
the rationals, and over binary64 its rank is not full and its determinant is a zero, so that it has
no inverse; or it is a NaN, since the product of the diagonal has overflowed before the zero. -/
theorem Binary.singular_of_vanishesExactly {n : ℕ} {a : ℕ → ℕ → ℤ}
    (ha : ∀ i < n, ∀ j < n, |a i j| < 2 ^ 53)
    (h : VanishesExactly .binary64 n fun i j => a i j) :
    (DenseMatrix.ofIntegers ℚ n a).determinant.outcome = .ok 0 ∧
      (∃ rank < n, (DenseMatrix.ofIntegers (Binary .binary64) n a).rank.outcome = .ok rank) ∧
      ∃ det, (DenseMatrix.ofIntegers (Binary .binary64) n a).determinant.outcome = .ok det ∧
        (det.isZero = true ∧
            (DenseMatrix.ofIntegers (Binary .binary64) n a).inverse.outcome
              = .error (.shape .singular) ∨
          det.isNaN = true) := by
  obtain ⟨hsingular, hrank⟩ := rank_lt_of_vanishesExactly (φ := .binary64) (by decide) ha h
  obtain ⟨det, hdet, hzero⟩ := exists_determinant_of_rank_lt hrank
  refine ⟨?_, ⟨_, hrank, DenseMatrix.rank_tabulate _⟩, det, hdet, hzero.imp_left fun hzero => ?_⟩
  · rw [DenseMatrix.ofIntegers, DenseMatrix.determinant_tabulate]
    exact congrArg Except.ok ((Sweep.rank_lt_iff_det_eq_zero n _).mp hsingular)
  · exact ⟨hzero, DenseMatrix.outcome_inverse_of_isZero hdet hzero⟩

/-- The second row is a third of the first, and a third is not a number of the format. The updates
are exact all the same. -/
theorem Binary.singular_of_third :
    let a := integerGrid [[3, 6, 9], [1, 2, 3], [2, 5, 7]]
    (∀ i < 3, ∀ j < 3, |a i j| < 2 ^ 53) ∧ VanishesExactly .binary64 3 (fun i j => a i j) ∧
      nearest? .binary64 (1 / 3) ≠ some (1 / 3) ∧
      (DenseMatrix.ofIntegers ℚ 3 a).determinant.outcome = .ok 0 ∧
      (∃ rank < 3, (DenseMatrix.ofIntegers (Binary .binary64) 3 a).rank.outcome = .ok rank) ∧
      ∃ det, (DenseMatrix.ofIntegers (Binary .binary64) 3 a).determinant.outcome = .ok det ∧
        (det.isZero = true ∧
            (DenseMatrix.ofIntegers (Binary .binary64) 3 a).inverse.outcome
              = .error (.shape .singular) ∨
          det.isNaN = true) := by
  have ha : ∀ i < 3, ∀ j < 3, |integerGrid [[3, 6, 9], [1, 2, 3], [2, 5, 7]] i j| < 2 ^ 53 := by
    decide
  have hvanishes : VanishesExactly .binary64 3 fun i j =>
      integerGrid [[3, 6, 9], [1, 2, 3], [2, 5, 7]] i j := by
    decide +kernel
  exact ⟨ha, hvanishes, by decide +kernel, singular_of_vanishesExactly ha hvanishes⟩

/-- **A residue makes a singular matrix regular.** The quotient `1 / 49` is rounded, its product
with 49 is rounded to the number before one, and the difference is the second pivot. -/
theorem Binary.regular_of_residue :
    let a := integerGrid [[49, 49], [1, 1]]
    (∀ i < 2, ∀ j < 2, |a i j| < 2 ^ 20) ∧
      (DenseMatrix.ofIntegers ℚ 2 a).determinant.outcome = .ok 0 ∧
      (DenseMatrix.ofIntegers (Binary .binary64) 2 a).rank.outcome = .ok 2 ∧
      (DenseMatrix.ofIntegers (Binary .binary64) 2 a).determinant.outcome
        = .ok ⟨0x3cf8800000000000#64⟩ ∧
      (⟨0x3cf8800000000000#64⟩ : Binary .binary64).isZero = false ∧
      (DenseMatrix.ofIntegers (Binary .binary64) 2 a).inverse.outcome
        ≠ .error (.shape .singular) := by
  decide +kernel

end LinearSystems
