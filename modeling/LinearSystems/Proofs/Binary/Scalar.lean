import LinearSystems.Proofs.Binary.Order
import LinearSystems.Proofs.DenseMatrix.Grid
import LinearSystems.Proofs.DenseVector.Tabulate
import LinearSystems.Proofs.Elimination.Staircase

/-!
# What floating-point scalars have in common with a field

Floating-point numbers satisfy no field law that an elimination could rest on: a sum may be
rounded, a product of zero may be a NaN, and a NaN is not zero. A few facts remain. Two of them are
those that the shape of an echelon form rests on: zero counts as zero, and one does not. That one
counts as one is what the test for reduced forms asks of a pivot. For differences of flats, a
negation has the magnitude of what is negated, so it counts as zero only if that does.

Equality merges the NaNs with each other and the zeros with each other, and nothing else
(`equal_iff`). No NaN counts as zero or as one, and both zeros count as zero, so the tests do not
tell merged elements apart. For one this needs that its bit pattern is neither a zero nor a NaN,
which is seen from the format.
-/

namespace LinearSystems.Binary

instance (φ : BinaryFormat) : ZeroCountsAsZero (Binary φ) where
  isZero_zero := by
    change (BitVec.toNat (BitVec.ofNat φ.numBits 0) % Nat.pow 2 (φ.numBits - 1) == 0) = true
    simp

instance : OneIsNonzero (Binary binary64) where
  isZero_one := by decide

instance : OneIsNonzero (Binary binary32) where
  isZero_one := by decide

instance (φ : BinaryFormat) : OneCountsAsOne (Binary φ) where
  isOne_one := decide_eq_true rfl

/-- Negation changes the sign bit only. -/
theorem magnitude_neg {φ : BinaryFormat} (x : Binary φ) : x.neg.magnitude = x.magnitude := by
  have hsign : (BitVec.intMin φ.numBits).toNat % 2 ^ (φ.numBits - 1) = 0 := by
    rw [BitVec.toNat_intMin, Nat.mod_mod_of_dvd _ (Nat.pow_dvd_pow 2 (Nat.sub_le _ 1)),
      Nat.mod_self]
  change (x.bits ^^^ BitVec.intMin φ.numBits).toNat % 2 ^ (φ.numBits - 1) = _
  rw [BitVec.toNat_xor, Nat.xor_mod_two_pow, hsign, Nat.xor_zero]
  rfl

instance (φ : BinaryFormat) : NegationKeepsNonzero (Binary φ) where
  isZero_neg x h := by
    change (x.neg.magnitude == 0) = false
    rw [magnitude_neg]
    exact h

/-! ### Equality and the tests for zero and one -/

variable {φ : BinaryFormat} {x y : Binary φ}

instance (φ : BinaryFormat) : ReflexiveEquality (Binary φ) where
  equal_self _ := equal_iff.2 (Or.inr (Or.inr rfl))

instance (φ : BinaryFormat) : ZerosAreEqual (Binary φ) where
  equal_of_isZero hx hy := equal_iff.2 (Or.inr (Or.inl ⟨hx, hy⟩))

/-- Only one bit pattern counts as one. -/
theorem isOne_iff : Scalar.isOne x = true ↔ x = one := by
  change decide (x.bits = (one : Binary φ).bits) = true ↔ x = one
  rw [decide_eq_true_eq]
  exact ⟨fun h => by cases x; exact congrArg Binary.mk h, congrArg Binary.bits⟩

/-- Equal elements both count as zero or neither does. -/
theorem isZero_eq_of_equal (h : x.equal y = true) : x.isZero = y.isZero := by
  rcases equal_iff.1 h with ⟨hx, hy⟩ | ⟨hx, hy⟩ | rfl
  · have hnumber : ∀ z : Binary φ, z.isNaN = true → z.isZero = false := fun z hz => by
      rw [← Bool.not_eq_true]
      intro hzero
      rw [isNaN_eq_false_of_isZero hzero] at hz
      exact Bool.noConfusion hz
    rw [hnumber x hx, hnumber y hy]
  · rw [hx, hy]
  · rfl

/-- Nothing but one equals one, in a format whose one is neither a zero nor a NaN. -/
theorem eq_one_of_equal (hnan : (one : Binary φ).isNaN = false)
    (hzero : (one : Binary φ).isZero = false) (h : x.equal one = true) : x = one := by
  rcases equal_iff.1 h with ⟨-, hone⟩ | ⟨-, hone⟩ | heq
  · rw [hnan] at hone
    exact Bool.noConfusion hone
  · rw [hzero] at hone
    exact Bool.noConfusion hone
  · exact heq

/-- In such a format the two tests respect equality. -/
theorem equalityRespectsTests (hnan : (one : Binary φ).isNaN = false)
    (hzero : (one : Binary φ).isZero = false) : EqualityRespectsTests (Binary φ) where
  isZero_congr := isZero_eq_of_equal
  isOne_congr {x y} h := by
    rw [Bool.eq_iff_iff, isOne_iff, isOne_iff]
    refine ⟨fun hx => ?_, fun hy => ?_⟩
    · exact eq_one_of_equal hnan hzero (by rw [equal_comm, ← hx]; exact h)
    · exact eq_one_of_equal hnan hzero (by rw [← hy]; exact h)

instance : EqualityRespectsTests (Binary binary64) :=
  equalityRespectsTests (by decide) (by decide)

instance : EqualityRespectsTests (Binary binary32) :=
  equalityRespectsTests (by decide) (by decide)

end LinearSystems.Binary
