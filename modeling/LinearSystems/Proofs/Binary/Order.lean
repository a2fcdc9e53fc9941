import LinearSystems.Binary.Basic
import Mathlib.Algebra.Ring.Nat

/-!
# The order of floating-point elements

Equality merges bit patterns: all NaNs are equal, and so are the two zeros. The order asks for
equality first and compares what is left by bit pattern. The two zeros are neighbours among the
patterns, so that nothing is lost by merging them. The NaNs are not: those with a sign bit stand in
front of every number and those without it behind every number, and merging the two ends of a line
leaves no line.

* `equal_iff`: which patterns are merged;
* `order_cases`: the three results of a comparison, each with what it says about the patterns;
* `isNaN_of_rank_between`: two merged patterns have others in between only if they are NaNs of
  either sign;
* `order_laws`: the comparison gives `eq` exactly for equal elements and is turned round by an
  exchange of its arguments, and a chain `x ≤ y ≤ z` with `x > z` exists exactly through a NaN that
  equals one of the opposite sign (`DetourByNaN`);
* `isLE_order_trans`: the order is transitive through every element that is not a NaN.

All of this holds for every format. No claim is made about arithmetic.
-/

namespace LinearSystems.Binary

variable {φ : BinaryFormat} {x y z : Binary φ}

/-! ### Classes of bit patterns -/

theorem isNaN_iff : x.isNaN = true ↔ infinityMagnitude φ < x.magnitude := by
  simp only [isNaN, decide_eq_true_eq]

theorem isZero_iff : x.isZero = true ↔ x.magnitude = 0 := by
  simp only [isZero, beq_iff_eq]

theorem isNaN_eq_false_of_isZero (h : x.isZero = true) : x.isNaN = false := by
  rw [isZero_iff] at h
  simp only [isNaN, h, Nat.not_lt_zero, decide_false]

/-- A number below `2 ^ n` is its top bit in front of the others; without any bit it is zero. -/
private theorem eq_top_add_mod {n b : Nat} (h : b < 2 ^ n) :
    b = (if 2 ^ (n - 1) ≤ b then 2 ^ (n - 1) else 0) + b % 2 ^ (n - 1) := by
  cases n with
  | zero =>
    rw [Nat.lt_one_iff.mp h]
    rfl
  | succ n =>
    rw [Nat.add_sub_cancel]
    rw [Nat.pow_succ] at h
    split
    case isTrue htop =>
      rw [Nat.mod_eq_sub_mod htop, Nat.mod_eq_of_lt (by omega), Nat.add_sub_cancel' htop]
    case isFalse htop =>
      rw [Nat.mod_eq_of_lt (Nat.lt_of_not_le htop), Nat.zero_add]

/-- A bit pattern is its sign bit in front of its magnitude. -/
theorem toNat_bits (x : Binary φ) :
    x.bits.toNat = (if x.isNegative then 2 ^ (φ.numBits - 1) else 0) + x.magnitude := by
  simp only [isNegative, magnitude, BitVec.msb_eq_decide, Nat.pow_eq, decide_eq_true_eq]
  exact eq_top_add_mod x.bits.isLt

/-- No two bit patterns share a place. -/
theorem rank_injective (h : x.rank = y.rank) : x = y := by
  have hbits : x.bits.toNat = y.bits.toNat := by
    rw [toNat_bits, toNat_bits]
    unfold rank at h
    cases hx : x.isNegative <;> cases hy : y.isNegative <;>
      simp only [hx, hy, Bool.false_eq_true, if_true, if_false] at h ⊢ <;> omega
  cases x
  cases y
  exact congrArg Binary.mk (BitVec.eq_of_toNat_eq hbits)

/-! ### Equality -/

/-- Equality merges the NaNs, and it merges the zeros. -/
theorem equal_iff :
    x.equal y = true ↔
      x.isNaN = true ∧ y.isNaN = true ∨ x.isZero = true ∧ y.isZero = true ∨ x = y := by
  have hbits : x.bits = y.bits ↔ x = y := by
    cases x
    cases y
    simp only [Binary.mk.injEq]
  unfold equal
  split
  case isTrue hnan =>
    rw [Bool.or_eq_true] at hnan
    rw [Bool.and_eq_true]
    refine ⟨Or.inl, ?_⟩
    rintro (h | ⟨hx, hy⟩ | rfl)
    · exact h
    · simp [isNaN_eq_false_of_isZero hx, isNaN_eq_false_of_isZero hy] at hnan
    · exact ⟨or_self_iff.mp hnan, or_self_iff.mp hnan⟩
  case isFalse hnan =>
    rw [Bool.or_eq_true, decide_eq_true_eq, Bool.and_eq_true, hbits, or_comm]
    refine ⟨Or.inr, ?_⟩
    rintro (⟨hx, -⟩ | h)
    · simp [hx] at hnan
    · exact h

theorem equal_comm (x y : Binary φ) : x.equal y = y.equal x := by
  rw [Bool.eq_iff_iff, equal_iff, equal_iff, and_comm, @and_comm (x.isZero = true), @eq_comm _ x]

theorem equal_trans (hxy : x.equal y = true) (hyz : y.equal z = true) : x.equal z = true := by
  rw [equal_iff] at hxy hyz ⊢
  rcases hxy with ⟨hx, hy⟩ | ⟨hx, hy⟩ | rfl
  · rcases hyz with ⟨-, hz⟩ | ⟨hy', -⟩ | rfl
    · exact Or.inl ⟨hx, hz⟩
    · rw [isNaN_eq_false_of_isZero hy'] at hy
      exact Bool.noConfusion hy
    · exact Or.inl ⟨hx, hy⟩
  · rcases hyz with ⟨hy', -⟩ | ⟨-, hz⟩ | rfl
    · rw [isNaN_eq_false_of_isZero hy] at hy'
      exact Bool.noConfusion hy'
    · exact Or.inr (Or.inl ⟨hx, hz⟩)
    · exact Or.inr (Or.inl ⟨hx, hy⟩)
  · exact hyz

/-! ### Comparison -/

/-- What a comparison can give: equal elements are equal, any others are in the order of their
places. -/
theorem order_cases (x y : Binary φ) :
    x.order y = .eq ∧ x.equal y = true ∨
      x.order y = .lt ∧ x.equal y = false ∧ x.rank < y.rank ∨
      x.order y = .gt ∧ x.equal y = false ∧ y.rank < x.rank := by
  unfold order
  cases heq : x.equal y
  case true =>
    exact Or.inl ⟨rfl, rfl⟩
  case false =>
    have hne : x.rank ≠ y.rank := by
      intro h
      rw [equal_iff.mpr (Or.inr (Or.inr (rank_injective h)))] at heq
      exact Bool.noConfusion heq
    rw [if_neg Bool.false_ne_true]
    rcases Int.lt_or_gt_of_ne hne with h | h
    · exact Or.inr (Or.inl ⟨if_pos h, rfl, h⟩)
    · exact Or.inr (Or.inr ⟨by rw [if_neg (Int.lt_asymm h), if_pos h], rfl, h⟩)

/-- A comparison gives `eq` exactly if the elements are equal. -/
theorem order_eq_eq_iff : x.order y = .eq ↔ x.equal y = true := by
  rcases order_cases x y with ⟨h, heq⟩ | ⟨h, heq, -⟩ | ⟨h, heq, -⟩ <;> simp [h, heq]

theorem order_eq_lt_iff : x.order y = .lt ↔ x.equal y = false ∧ x.rank < y.rank := by
  rcases order_cases x y with ⟨h, heq⟩ | ⟨h, heq, hlt⟩ | ⟨h, heq, hlt⟩
  · simp [h, heq]
  · simp [h, heq, hlt]
  · simp [h, Int.lt_asymm hlt]

theorem order_eq_gt_iff : x.order y = .gt ↔ x.equal y = false ∧ y.rank < x.rank := by
  rcases order_cases x y with ⟨h, heq⟩ | ⟨h, heq, hlt⟩ | ⟨h, heq, hlt⟩
  · simp [h, heq]
  · simp [h, Int.lt_asymm hlt]
  · simp [h, heq, hlt]

theorem isLE_order_iff : (x.order y).isLE = true ↔ x.equal y = true ∨ x.rank < y.rank := by
  rcases order_cases x y with ⟨h, heq⟩ | ⟨h, heq, hlt⟩ | ⟨h, heq, hlt⟩
  · simp [h, heq]
  · simp [h, hlt]
  · simp [h, heq, Int.lt_asymm hlt]

/-- An exchange of the arguments turns the result round. -/
theorem order_swap (x y : Binary φ) : y.order x = (x.order y).swap := by
  rcases order_cases x y with ⟨h, heq⟩ | ⟨h, heq, hlt⟩ | ⟨h, heq, hlt⟩ <;>
    rw [equal_comm] at heq <;> rw [h]
  · exact order_eq_eq_iff.mpr heq
  · exact order_eq_gt_iff.mpr ⟨heq, hlt⟩
  · exact order_eq_lt_iff.mpr ⟨heq, hlt⟩

/-! ### Transitivity -/

/-- A NaN with the sign bit comes before every number. -/
theorem rank_lt_of_isNegative (hx : x.isNaN = true) (hs : x.isNegative = true)
    (hy : y.isNaN = false) : x.rank < y.rank := by
  rw [isNaN_iff] at hx
  rw [← Bool.not_eq_true, isNaN_iff] at hy
  unfold rank
  rw [if_pos hs]
  split <;> omega

/-- A NaN without the sign bit comes after every number. -/
theorem rank_lt_of_not_isNegative (hx : x.isNaN = false) (hy : y.isNaN = true)
    (hs : y.isNegative = false) : x.rank < y.rank := by
  rw [← Bool.not_eq_true, isNaN_iff] at hx
  rw [isNaN_iff] at hy
  unfold rank
  rw [hs, if_neg Bool.false_ne_true]
  split <;> omega

/-- If a third element has its place between those of two equal ones, then these are NaNs with and
without the sign bit, and the third is a number. -/
theorem isNaN_of_rank_between (heq : x.equal y = true) (hne : x.equal z = false)
    (hxz : x.rank < z.rank) (hzy : z.rank < y.rank) :
    (x.isNaN = true ∧ x.isNegative = true) ∧ (y.isNaN = true ∧ y.isNegative = false) ∧
      z.isNaN = false := by
  rcases equal_iff.mp heq with ⟨hx, hy⟩ | ⟨hx, hy⟩ | rfl
  · have hz : z.isNaN = false := by
      rw [← Bool.not_eq_true]
      intro hz
      rw [equal_iff.mpr (Or.inl ⟨hx, hz⟩)] at hne
      exact Bool.noConfusion hne
    have hxs : x.isNegative = true := by
      rw [← Bool.not_eq_false]
      exact fun hs => Int.lt_asymm hxz (rank_lt_of_not_isNegative hz hx hs)
    have hys : y.isNegative = false := by
      rw [← Bool.not_eq_true]
      exact fun hs => Int.lt_asymm hzy (rank_lt_of_isNegative hy hs hz)
    exact ⟨⟨hx, hxs⟩, ⟨hy, hys⟩, hz⟩
  -- the places of the two zeros are next to each other
  · have hplace (w : Binary φ) (hw : w.isZero = true) : w.rank = -1 ∨ w.rank = 0 := by
      rw [isZero_iff] at hw
      unfold rank
      rw [hw]
      split <;> simp
    have hxr := hplace x hx
    have hyr := hplace y hy
    omega
  · exact absurd hxz (Int.lt_asymm hzy)

/-- The chain `x`, `y`, `z` uses a NaN to get back past a number: `y` is a NaN, one end of the chain
is a NaN with the other sign bit and so equals `y`, and the other end is a number. -/
def DetourByNaN (x y z : Binary φ) : Prop :=
  y.isNaN = true ∧
    (x.isNaN = true ∧ x.isNegative = false ∧ y.isNegative = true ∧ z.isNaN = false ∨
      z.isNaN = true ∧ z.isNegative = true ∧ y.isNegative = false ∧ x.isNaN = false)

theorem equal_eq_false_of_isNaN (hx : x.isNaN = true) (hy : y.isNaN = false) :
    x.equal y = false := by
  simp [equal, hx, hy]

/-- The order fails to be transitive exactly along a detour by a NaN. -/
theorem order_eq_gt_of_chain_iff :
    ((x.order y).isLE = true ∧ (y.order z).isLE = true ∧ x.order z = .gt) ↔
      DetourByNaN x y z := by
  constructor
  · rintro ⟨hxy, hyz, hgt⟩
    obtain ⟨hne, hlt⟩ := order_eq_gt_iff.mp hgt
    rcases isLE_order_iff.mp hxy with heq | hxy
    · have hne' : y.equal z = false := by
        rw [← Bool.not_eq_true]
        intro h
        rw [equal_trans heq h] at hne
        exact Bool.noConfusion hne
      have hyz : y.rank < z.rank := (isLE_order_iff.mp hyz).resolve_left (by simp [hne'])
      rw [equal_comm] at heq
      obtain ⟨⟨hy, hys⟩, ⟨hx, hxs⟩, hz⟩ := isNaN_of_rank_between heq hne' hyz hlt
      exact ⟨hy, Or.inl ⟨hx, hxs, hys, hz⟩⟩
    · rcases isLE_order_iff.mp hyz with heq | hyz
      · rw [equal_comm] at heq hne
        obtain ⟨⟨hz, hzs⟩, ⟨hy, hys⟩, hx⟩ := isNaN_of_rank_between heq hne hlt hxy
        exact ⟨hy, Or.inr ⟨hz, hzs, hys, hx⟩⟩
      · omega
  · rintro ⟨hy, ⟨hx, hxs, hys, hz⟩ | ⟨hz, hzs, hys, hx⟩⟩
    · exact ⟨isLE_order_iff.mpr (Or.inl (equal_iff.mpr (Or.inl ⟨hx, hy⟩))),
        isLE_order_iff.mpr (Or.inr (rank_lt_of_isNegative hy hys hz)),
        order_eq_gt_iff.mpr
          ⟨equal_eq_false_of_isNaN hx hz, rank_lt_of_not_isNegative hz hx hxs⟩⟩
    · exact ⟨isLE_order_iff.mpr (Or.inr (rank_lt_of_not_isNegative hx hy hys)),
        isLE_order_iff.mpr (Or.inl (equal_iff.mpr (Or.inl ⟨hy, hz⟩))),
        order_eq_gt_iff.mpr
          ⟨equal_comm z x ▸ equal_eq_false_of_isNaN hz hx, rank_lt_of_isNegative hz hzs hx⟩⟩

/-- **Transitivity through numbers.** If neither of two comparisons is `gt` and the element in the
middle is not a NaN, then the comparison of the outer two is not `gt` either. -/
theorem isLE_order_trans (hy : y.isNaN = false) (hxy : (x.order y).isLE = true)
    (hyz : (y.order z).isLE = true) : (x.order z).isLE = true := by
  rw [← Ordering.ne_gt_iff_isLE]
  intro hgt
  have hnan : y.isNaN = true := (order_eq_gt_of_chain_iff.mp ⟨hxy, hyz, hgt⟩).1
  rw [hy] at hnan
  exact Bool.noConfusion hnan

/-- **The laws of the order.** For any three bit patterns of any format: a comparison gives `eq`
exactly if the elements are equal, an exchange of its arguments turns its result round, and a chain
`x ≤ y ≤ z` with `x > z` exists exactly if it is a detour by a NaN. -/
theorem order_laws (x y z : Binary φ) :
    (x.order y = .eq ↔ x.equal y = true) ∧
      y.order x = (x.order y).swap ∧
      (((x.order y).isLE = true ∧ (y.order z).isLE = true ∧ x.order z = .gt) ↔
        DetourByNaN x y z) :=
  ⟨order_eq_eq_iff, order_swap x y, order_eq_gt_of_chain_iff⟩

/-- The canonical NaN equals its negation, which comes before zero; the canonical NaN comes
after it. -/
theorem order_not_transitive_at_nan :
    ((nan : Binary binary64).equal nan.neg = true ∧
      (nan.neg : Binary binary64).order zero = .lt ∧
      (nan : Binary binary64).order zero = .gt) ∧
    ((nan : Binary binary32).equal nan.neg = true ∧
      (nan.neg : Binary binary32).order zero = .lt ∧
      (nan : Binary binary32).order zero = .gt) := by
  decide

end LinearSystems.Binary
