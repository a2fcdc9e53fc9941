import LinearSystems.Proofs.Binary.Fields
import LinearSystems.Proofs.Binary.Scalar

/-!
# Hashing of floating-point elements

An element is hashed as one word. If the word is to be of any use, equal elements must give the
same one, and equality merges patterns: all NaNs, and the two zeros. So a hasher is not given the
pattern of the element but that of a representative of its class (`representative`): the canonical
NaN, the positive zero, or the element itself. Two facts carry everything:

* an element equals its representative (`equal_representative`), and
* equal elements have the same one (`representative_eq_iff`).

Hence the word tells exactly the classes apart. `equal_eq_beq` says that the classes are the
intended ones: equality is the comparison of the numbers that the patterns stand for, with all NaNs
made equal.
-/

namespace LinearSystems.Binary

open Float.Model (UnpackedFloat)

variable {φ : BinaryFormat} {x y : Binary φ}

/-! ### Representatives -/

/-- The element whose pattern is given to a hasher in the place of `x`. -/
def representative (x : Binary φ) : Binary φ :=
  if x.isNaN then nan else if x.isZero then zero else x

theorem hashWord_eq (x : Binary φ) : x.hashWord = x.representative.bits.toNat := by
  unfold hashWord representative
  split_ifs with hnan hzero
  · rfl
  · rw [zero, BitVec.toNat_ofNat, Nat.zero_mod]
  · rfl

/-- The representative stands in the class of the element. -/
theorem equal_representative (x : Binary φ) : x.equal x.representative = true := by
  have hzero₀ : (zero : Binary φ).isZero = true := @ZeroCountsAsZero.isZero_zero (Binary φ) _ _
  rw [equal_iff, representative]
  split_ifs with hnan hzero
  · exact Or.inl ⟨hnan, isNaN_nan⟩
  · exact Or.inr (Or.inl ⟨hzero, hzero₀⟩)
  · exact Or.inr (Or.inr rfl)

/-- A class has one representative. -/
theorem representative_eq_iff : x.representative = y.representative ↔ x.equal y = true := by
  constructor
  · intro h
    have hy : x.representative.equal y = true := by
      rw [h, equal_comm]
      exact equal_representative y
    exact equal_trans (equal_representative x) hy
  · intro h
    rcases equal_iff.mp h with ⟨hx, hy⟩ | ⟨hx, hy⟩ | rfl
    · rw [representative, representative, if_pos hx, if_pos hy]
    · rw [representative, representative, isNaN_eq_false_of_isZero hx, isNaN_eq_false_of_isZero hy,
        if_neg Bool.false_ne_true, if_neg Bool.false_ne_true, if_pos hx, if_pos hy]
    · rfl

/-- Two elements give the same word exactly if they are equal. -/
theorem hashWord_eq_iff : x.hashWord = y.hashWord ↔ x.equal y = true := by
  rw [hashWord_eq, hashWord_eq, BitVec.toNat_inj, ← representative_eq_iff]
  cases x.representative
  cases y.representative
  rw [mk.injEq]

theorem hashWord_lt (x : Binary φ) : x.hashWord < 2 ^ φ.numBits := by
  rw [hashWord_eq]
  exact x.representative.bits.isLt

/-! ### Equality -/

theorem equal_equivalence (φ : BinaryFormat) :
    Equivalence fun x y : Binary φ => x.equal y = true where
  refl _ := equal_iff.mpr (Or.inr (Or.inr rfl))
  symm h := by rw [equal_comm, h]
  trans := equal_trans

/-- Two patterns stand for one number exactly if both are zeros or they are the same. -/
theorem unpack_eq_or_zeros_iff (hx : x.isNaN = false) :
    (x.unpack = y.unpack ∨ (x.unpack = .zero .positive ∧ y.unpack = .zero .negative) ∨
        (x.unpack = .zero .negative ∧ y.unpack = .zero .positive)) ↔
      x.isZero = true ∧ y.isZero = true ∨ x = y := by
  constructor
  · rintro (heq | ⟨hzero, hzero'⟩ | ⟨hzero, hzero'⟩)
    · exact Or.inr (eq_of_unpack_eq hx heq)
    · exact Or.inl ⟨(unpack_eq_zero_iff.mp hzero).1, (unpack_eq_zero_iff.mp hzero').1⟩
    · exact Or.inl ⟨(unpack_eq_zero_iff.mp hzero).1, (unpack_eq_zero_iff.mp hzero').1⟩
  · rintro (⟨hzero, hzero'⟩ | rfl)
    · rw [unpack_eq_zero_iff.mpr ⟨hzero, rfl⟩, unpack_eq_zero_iff.mpr ⟨hzero', rfl⟩]
      cases x.sign <;> cases y.sign <;> simp
    · exact Or.inl rfl

/-- **Equality compares numbers.** Apart from the NaNs, two patterns are equal exactly if the
numbers that they stand for are. -/
theorem equal_eq_beq (x y : Binary φ) :
    x.equal y = (x.isNaN && y.isNaN || x.unpack.beq y.unpack) := by
  rw [Bool.eq_iff_iff, equal_iff, Bool.or_eq_true, Bool.and_eq_true,
    UnpackedFloat.beq_iff_ne_notANumber_and_eq, Ne, Ne, unpack_eq_notANumber_iff,
    unpack_eq_notANumber_iff]
  refine or_congr_right' fun hnan => ⟨fun h => ?_, fun h => ?_⟩
  · -- neither of two zeros is a NaN, and of two equal patterns that are not both NaNs none is
    have hx : x.isNaN = false := by
      rcases h with ⟨hzero, -⟩ | rfl
      · exact isNaN_eq_false_of_isZero hzero
      · simpa using hnan
    have hy : y.isNaN = false := by
      rcases h with ⟨-, hzero⟩ | rfl
      · exact isNaN_eq_false_of_isZero hzero
      · exact hx
    exact ⟨Bool.eq_false_iff.mp hx, Bool.eq_false_iff.mp hy, (unpack_eq_or_zeros_iff hx).mpr h⟩
  · exact (unpack_eq_or_zeros_iff (Bool.eq_false_iff.mpr h.1)).mp h.2.2

/-- **Equality and hashing.** In both formats equality is an equivalence relation on all bit
patterns. The word of an element fits into 64 bits, and two elements have the same one exactly if
they are equal. -/
theorem equal_iff_hashWord_eq :
    (Equivalence (fun x y : Binary binary64 => x.equal y = true) ∧
        ∀ x y : Binary binary64, x.hashWord < 2 ^ 64 ∧
          (x.equal y = true ↔ x.hashWord = y.hashWord)) ∧
      Equivalence (fun x y : Binary binary32 => x.equal y = true) ∧
        ∀ x y : Binary binary32, x.hashWord < 2 ^ 64 ∧
          (x.equal y = true ↔ x.hashWord = y.hashWord) :=
  ⟨⟨equal_equivalence _, fun x _ => ⟨hashWord_lt x, hashWord_eq_iff.symm⟩⟩,
    equal_equivalence _, fun x _ =>
      ⟨Nat.lt_of_lt_of_le (hashWord_lt x) (by decide), hashWord_eq_iff.symm⟩⟩

end LinearSystems.Binary
