import LinearSystems.Proofs.DenseMatrix.Grid
import LinearSystems.Proofs.DenseVector.Tabulate
import LinearSystems.Proofs.Elimination.Staircase
import LinearSystems.Rational
import Mathlib.Algebra.Field.Rat

/-!
# The arithmetic of rational scalars

The operations of the scalar type `ℚ` are those of the field `ℚ`, only zero counts as zero, only
one counts as one, and elements count as the same if they are equal. From here on a statement
about rational matrices is a statement of algebra.
-/

namespace LinearSystems.Rational

@[simp]
theorem zero_eq : (Scalar.zero : ℚ) = 0 := rfl

@[simp]
theorem one_eq : (Scalar.one : ℚ) = 1 := rfl

@[simp]
theorem add_eq (a b : ℚ) : Scalar.add a b = a + b := rfl

@[simp]
theorem sub_eq (a b : ℚ) : Scalar.sub a b = a - b := rfl

@[simp]
theorem mul_eq (a b : ℚ) : Scalar.mul a b = a * b := rfl

@[simp]
theorem neg_eq (a : ℚ) : Scalar.neg a = -a := rfl

@[simp]
theorem div_eq (a b : ℚ) : Scalar.div a b = a / b := rfl

@[simp]
theorem inv_eq (a : ℚ) : Scalar.inv a = a⁻¹ := rfl

@[simp]
theorem addMul_eq (a b d : ℚ) : Scalar.addMul a b d = a + b * d := rfl

@[simp]
theorem subMul_eq (a b d : ℚ) : Scalar.subMul a b d = a - b * d := rfl

/-- Only zero counts as zero. -/
@[simp]
theorem isZero_iff {a : ℚ} : Scalar.isZero a = true ↔ a = 0 := by
  change (a.num == 0) = true ↔ a = 0
  rw [beq_iff_eq, Rat.num_eq_zero]

@[simp]
theorem isZero_eq_false_iff {a : ℚ} : Scalar.isZero a = false ↔ a ≠ 0 := by
  rw [← Bool.not_eq_true, isZero_iff]

/-- Only one counts as one. -/
@[simp]
theorem isOne_iff {a : ℚ} : Scalar.isOne a = true ↔ a = 1 := by
  change (a.num == 1 && a.den == 1) = true ↔ a = 1
  rw [Bool.and_eq_true, beq_iff_eq, beq_iff_eq]
  exact ⟨fun h => Rat.ext h.1 h.2, fun h => by rw [h]; exact ⟨rfl, rfl⟩⟩

/-- Elements count as the same if they are equal. -/
@[simp]
theorem equal_iff {a b : ℚ} : Scalar.equal a b = true ↔ a = b := by
  change (a.num == b.num && a.den == b.den) = true ↔ a = b
  rw [Bool.and_eq_true, beq_iff_eq, beq_iff_eq]
  exact ⟨fun h => Rat.ext h.1 h.2, fun h => by rw [h]; exact ⟨rfl, rfl⟩⟩

instance : ZeroCountsAsZero ℚ where
  isZero_zero := isZero_iff.2 rfl

instance : OneIsNonzero ℚ where
  isZero_one := isZero_eq_false_iff.2 one_ne_zero

instance : OneCountsAsOne ℚ where
  isOne_one := isOne_iff.2 rfl

instance : ReflexiveEquality ℚ where
  equal_self _ := equal_iff.2 rfl

instance : ZerosAreEqual ℚ where
  equal_of_isZero ha hb := equal_iff.2 ((isZero_iff.1 ha).trans (isZero_iff.1 hb).symm)

instance : EqualityRespectsTests ℚ where
  isZero_congr h := congrArg _ (equal_iff.1 h)
  isOne_congr h := congrArg _ (equal_iff.1 h)

instance : NegationKeepsNonzero ℚ where
  isZero_neg _ h := isZero_eq_false_iff.2 (neg_ne_zero.2 (isZero_eq_false_iff.1 h))

end LinearSystems.Rational
