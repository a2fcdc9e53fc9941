import LinearSystems.Proofs.Binary.Order
import Mathlib

/-!
# The fields of a bit pattern

A bit pattern is a sign, an exponent field and a fraction (`sign`, `exponentField`, `fraction`).
The pattern is determined by them (`ext_fields`), and they can be prescribed (`ofFields`). The
magnitude, by which the patterns are classified, is the exponent field in front of the fraction
(`magnitude_eq`), and `unpack_eq` says what number a pattern stands for by its fields alone:

* all bits of the exponent field: an infinity if the fraction is empty, and a NaN otherwise;
* none of them: a zero if the fraction is empty, and a subnormal number otherwise;
* any other exponent field: a normal number, whose significand has one more bit in front of the
  fraction.
-/

namespace LinearSystems.Binary

open Float.Model (UnpackedFloat)
open Float.Model.UnpackedFloat

variable {φ : BinaryFormat}

/-! ### Reading and writing the fields -/

/-- The sign of a bit pattern. -/
def sign (x : Binary φ) : Sign :=
  .ofBitVec (unpackSign x.bits)

/-- The bits between the sign and the fraction, as a number. -/
def exponentField (x : Binary φ) : Nat :=
  (unpackExponent x.bits).toNat

/-- The last bits, as a number. -/
def fraction (x : Binary φ) : Nat :=
  (unpackMantissa x.bits).toNat

/-- The pattern with given fields, of which only the bits that fit are used. -/
def ofFields (φ : BinaryFormat) (s : Sign) (e m : Nat) : Binary φ :=
  ⟨packComponents φ s (BitVec.ofNat _ e) (BitVec.ofNat _ m)⟩

theorem exponentField_lt (x : Binary φ) : x.exponentField < 2 ^ φ.exponentBits :=
  (unpackExponent x.bits).isLt

theorem fraction_lt (x : Binary φ) : x.fraction < 2 ^ φ.mantissaBitsWithoutImplicit :=
  (unpackMantissa x.bits).isLt

@[simp]
theorem sign_ofFields (s : Sign) (e m : Nat) : (ofFields φ s e m).sign = s := by
  rw [sign, ofFields, unpackSign_packComponents, Sign.ofBitVec_toBitVec]

theorem exponentField_ofFields {e : Nat} (s : Sign) (m : Nat) (he : e < 2 ^ φ.exponentBits) :
    (ofFields φ s e m).exponentField = e := by
  simp [exponentField, ofFields, Nat.mod_eq_of_lt he]

theorem fraction_ofFields (s : Sign) (e m : Nat) :
    (ofFields φ s e m).fraction = m % 2 ^ φ.mantissaBitsWithoutImplicit := by
  simp [fraction, ofFields]

/-- The exponent field and the fraction are what is left of a pattern without its sign bit. -/
theorem magnitude_eq (x : Binary φ) :
    x.magnitude = 2 ^ φ.mantissaBitsWithoutImplicit * x.exponentField + x.fraction := by
  have hm := φ.hm
  have he := φ.he
  have hbits : φ.numBits - 1 = φ.mantissaBitsWithoutImplicit + φ.exponentBits := by
    change 1 + φ.exponentBits + φ.mantissaBitsWithoutImplicit - 1 = _
    omega
  have hexponent : x.exponentField =
      x.bits.toNat / 2 ^ φ.mantissaBitsWithoutImplicit % 2 ^ φ.exponentBits := by
    rw [exponentField, unpackExponent, BitVec.toNat_cast, BitVec.extractLsb_toNat,
      Nat.shiftRight_eq_div_pow]
    congr 2
    omega
  have hfraction : x.fraction = x.bits.toNat % 2 ^ φ.mantissaBitsWithoutImplicit := by
    rw [fraction, unpackMantissa, BitVec.toNat_cast, BitVec.extractLsb_toNat, Nat.shiftRight_zero]
    congr 2
    omega
  rw [magnitude, Nat.pow_eq, hbits, hexponent, hfraction, pow_add, Nat.mod_mul, Nat.add_comm]

theorem ofFields_fields (x : Binary φ) :
    ofFields φ x.sign x.exponentField x.fraction = x := by
  rw [ofFields, exponentField, fraction, BitVec.ofNat_toNat, BitVec.ofNat_toNat,
    BitVec.setWidth_eq, BitVec.setWidth_eq, sign,
    packComponents_unpackSign_unpackExponent_unpackMantissa]

/-- Patterns with the same fields are the same. -/
theorem ext_fields {x y : Binary φ} (hs : x.sign = y.sign)
    (he : x.exponentField = y.exponentField) (hf : x.fraction = y.fraction) : x = y := by
  rw [← ofFields_fields x, ← ofFields_fields y, hs, he, hf]

/-! ### Classes by fields -/

theorem two_le_two_pow_exponentBits (φ : BinaryFormat) : 2 ≤ 2 ^ φ.exponentBits :=
  Nat.le_self_pow φ.he.ne' 2

theorem isZero_iff_fields {x : Binary φ} :
    x.isZero = true ↔ x.exponentField = 0 ∧ x.fraction = 0 := by
  rw [isZero_iff, magnitude_eq, Nat.add_eq_zero_iff, Nat.mul_eq_zero,
    or_iff_right (Nat.two_pow_pos _).ne']

theorem isNaN_iff_fields {x : Binary φ} :
    x.isNaN = true ↔ x.exponentField = 2 ^ φ.exponentBits - 1 ∧ x.fraction ≠ 0 := by
  have he := x.exponentField_lt
  have hf := x.fraction_lt
  rw [isNaN_iff, infinityMagnitude, magnitude_eq, Nat.pow_eq, Nat.pow_eq, Nat.mul_comm]
  constructor
  · intro h
    have hfull : x.exponentField = 2 ^ φ.exponentBits - 1 := by
      by_contra hne
      have hstep := Nat.mul_le_mul_left (2 ^ φ.mantissaBitsWithoutImplicit)
        (show x.exponentField + 1 ≤ 2 ^ φ.exponentBits - 1 by omega)
      rw [Nat.mul_succ] at hstep
      omega
    rw [hfull] at h
    exact ⟨hfull, by omega⟩
  · rintro ⟨hfull, hne⟩
    rw [hfull]
    omega

/-- The exponent of a pattern is counted from the least exponent, which belongs to the exponent
fields 0 and 1. -/
theorem minExponent_eq (φ : BinaryFormat) :
    φ.minExponent = 1 - (φ.exponentBias + φ.mantissaBitsWithoutImplicit) := by
  have hpow : 1 ≤ 2 ^ (φ.exponentBits - 1) := Nat.one_le_two_pow
  simp only [Float.Model.Format.minExponent, Float.Model.Format.exponentBias,
    Float.Model.Format.mantissaBits]
  push_cast [hpow]
  ring

/-- What number a pattern stands for, by its fields. -/
theorem unpack_eq (x : Binary φ) :
    x.unpack =
      if x.exponentField = 2 ^ φ.exponentBits - 1 then
        if x.fraction = 0 then .infinity x.sign else .notANumber
      else if x.exponentField = 0 then
        if h : x.fraction = 0 then .zero x.sign
        else .finite x.sign x.fraction φ.minExponent (Nat.pos_of_ne_zero h)
      else
        .finite x.sign (2 ^ φ.mantissaBitsWithoutImplicit + x.fraction)
          (φ.minExponent + (x.exponentField - 1 : Nat))
          (Nat.add_pos_left (Nat.two_pow_pos _) _) := by
  have hfull : unpackExponent x.bits = -1#_ ↔ x.exponentField = 2 ^ φ.exponentBits - 1 := by
    rw [← BitVec.toNat_inj, BitVec.neg_one_eq_allOnes, BitVec.toNat_allOnes, exponentField]
  have hnone : unpackExponent x.bits = 0#_ ↔ x.exponentField = 0 := by
    rw [← BitVec.toNat_inj, BitVec.toNat_zero, exponentField]
  have hempty : unpackMantissa x.bits = 0#_ ↔ x.fraction = 0 := by
    rw [← BitVec.toNat_inj, BitVec.toNat_zero, fraction]
  have himplicit : (1#1 ++ unpackMantissa x.bits).toNat =
      2 ^ φ.mantissaBitsWithoutImplicit + x.fraction := by
    rw [BitVec.toNat_append, ← Nat.shiftLeft_add_eq_or_of_lt (BitVec.isLt _), Nat.shiftLeft_eq,
      BitVec.toNat_one, one_mul, fraction]
    exact Nat.one_pos
  unfold unpack UnpackedFloat.unpack
  simp only [hfull, hnone, hempty, himplicit, minExponent_eq]
  split
  case isTrue =>
    rfl
  case isFalse =>
    split
    case isTrue h0 =>
      split
      case isTrue => rfl
      case isFalse =>
        congr 1
        change ((x.exponentField : Nat) : Int) - _ + 1 = _
        omega
    case isFalse h0 =>
      congr 1
      change ((x.exponentField : Nat) : Int) - _ = _
      omega

theorem unpack_eq_notANumber_iff {x : Binary φ} : x.unpack = .notANumber ↔ x.isNaN = true := by
  rw [unpack_eq, isNaN_iff_fields]
  split_ifs with hfull hempty hnone hempty <;> simp_all

theorem unpack_eq_zero_iff {x : Binary φ} {s : Sign} :
    x.unpack = .zero s ↔ x.isZero = true ∧ x.sign = s := by
  have hfull := two_le_two_pow_exponentBits φ
  rw [unpack_eq, isZero_iff_fields]
  split_ifs with hfull hempty hnone hempty <;> simp_all
  omega

/-- Two patterns stand for the same number, or the same infinity, only if they are the same. -/
theorem eq_of_unpack_eq {x y : Binary φ} (hx : x.isNaN = false) (h : x.unpack = y.unpack) :
    x = y := by
  have hxe := x.fraction_lt
  have hye := y.fraction_lt
  rw [← Bool.not_eq_true, isNaN_iff_fields] at hx
  rw [unpack_eq, unpack_eq] at h
  split_ifs at h <;>
    simp only [UnpackedFloat.infinity.injEq, UnpackedFloat.zero.injEq,
      UnpackedFloat.finite.injEq] at h <;>
    first
    | exact ext_fields h (by omega) (by omega)
    | exact ext_fields h.1 (by omega) (by omega)
    | omega

/-! ### Packing -/

theorem neg_one_eq_ofNat (w : Nat) : (-1#w) = BitVec.ofNat w (2 ^ w - 1) := by
  refine BitVec.eq_of_toNat_eq ?_
  rw [BitVec.neg_one_eq_allOnes, BitVec.toNat_allOnes, BitVec.toNat_ofNat,
    Nat.mod_eq_of_lt (Nat.sub_lt (Nat.two_pow_pos w) Nat.one_pos)]

theorem ofUnpacked_infinity (s : Sign) :
    ofUnpacked (.infinity s) = ofFields φ s (2 ^ φ.exponentBits - 1) 0 := by
  rw [ofUnpacked, pack, packedInfinity, neg_one_eq_ofNat]
  rfl

theorem unpack_ofUnpacked_zero (s : Sign) : (ofUnpacked (.zero s) : Binary φ).unpack = .zero s :=
  unpack_packedZero

/-- The pattern that stands for no number is one of those that are no number. -/
theorem isNaN_nan : (nan : Binary φ).isNaN = true :=
  unpack_eq_notANumber_iff.mp unpack_packedNaN

end LinearSystems.Binary
