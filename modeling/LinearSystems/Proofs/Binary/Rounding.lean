import LinearSystems.Binary.Basic
import Mathlib

/-!
# Rounding a fraction to a format

The numbers of a format near a fraction `x` are the multiples of one power of two, whose exponent
is `unitExponent φ x`: as many places below the leading one of `x` as the significand has, but not
below the least exponent of the format. `rounded φ x` is the nearest of these multiples, and the one
with an even factor if `x` lies halfway between two of them. Beyond the largest number of the format
there is no rounded number, and `nearest? φ x` says so.

Rounding is symmetric (`nearest?_neg`), and it leaves alone what is a multiple of a power of two of
the format by an integer whose bits fit into a significand (`rounded_intCast_mul_zpow`), so in
particular such integers themselves (`nearest?_intCast`).
-/

namespace LinearSystems

namespace Rational

/-- The integer nearest to a fraction; of two that are equally near, the even one. -/
def nearestInteger (q : ℚ) : ℤ :=
  if 2 * Int.fract q < 1 then ⌊q⌋
  else if 1 < 2 * Int.fract q then ⌊q⌋ + 1
  else ⌊q⌋ + ⌊q⌋ % 2

/-- No integer is nearer to `q` than `n` is, and if another one is as near, then `n` is even. -/
def IsNearest (q : ℚ) (n : ℤ) : Prop :=
  |q - n| ≤ 1 / 2 ∧ (|q - n| = 1 / 2 → Even n)

theorem isNearest_nearestInteger (q : ℚ) : IsNearest q (nearestInteger q) := by
  have hq : q - ⌊q⌋ = Int.fract q := rfl
  have hpos := Int.fract_nonneg q
  have hlt := Int.fract_lt_one q
  unfold IsNearest nearestInteger
  split_ifs with hbelow habove
  · rw [hq, abs_of_nonneg hpos]
    exact ⟨by linarith, fun h => by linarith⟩
  · have hneg : q - (⌊q⌋ + 1 : ℤ) = -(1 - Int.fract q) := by
      push_cast
      linarith
    rw [hneg, abs_neg, abs_of_nonneg (by linarith)]
    exact ⟨by linarith, fun h => by linarith⟩
  · have hhalf : Int.fract q = 1 / 2 := by linarith
    rcases Int.emod_two_eq_zero_or_one ⌊q⌋ with heven | hodd
    · rw [heven, add_zero, hq, hhalf]
      exact ⟨by norm_num, fun _ => Int.even_iff.mpr heven⟩
    · have hneg : q - (⌊q⌋ + 1 : ℤ) = -(1 / 2) := by
        push_cast
        linarith
      rw [hodd, hneg]
      exact ⟨by norm_num, fun _ => Int.even_add_one.mpr (Int.not_even_iff.mpr hodd)⟩

/-- There is only one nearest integer. -/
theorem IsNearest.nearestInteger_eq {q : ℚ} {n : ℤ} (h : IsNearest q n) : nearestInteger q = n := by
  obtain ⟨hnear, heven⟩ := isNearest_nearestInteger q
  obtain ⟨hnear', heven'⟩ := h
  generalize nearestInteger q = m at *
  by_contra hne
  -- two of them are neighbours with `q` halfway between, and both would be even
  have hclose : |(m : ℚ) - n| ≤ 1 := by
    calc |(m : ℚ) - n| = |(q - n) - (q - m)| := by rw [sub_sub_sub_cancel_left]
      _ ≤ |q - n| + |q - m| := abs_sub _ _
      _ ≤ 1 := by linarith
  have hone : |m - n| = 1 := by
    have hle : |m - n| ≤ 1 := by exact_mod_cast hclose
    have hpos : 0 < |m - n| := abs_pos.mpr (sub_ne_zero.mpr hne)
    omega
  have hsum : (1 : ℚ) ≤ |q - n| + |q - m| := by
    calc (1 : ℚ) = |(m : ℚ) - n| := by exact_mod_cast hone.symm
      _ = |(q - n) - (q - m)| := by rw [sub_sub_sub_cancel_left]
      _ ≤ |q - n| + |q - m| := abs_sub _ _
  have hm := heven (by linarith)
  have hn := heven' (by linarith)
  have hdiff : Even |m - n| := even_abs.mpr (hm.sub hn)
  rw [hone] at hdiff
  exact absurd hdiff (by decide)

@[simp]
theorem nearestInteger_intCast (n : ℤ) : nearestInteger n = n := by
  refine IsNearest.nearestInteger_eq ?_
  rw [IsNearest, sub_self, abs_zero]
  exact ⟨by norm_num, fun h => by norm_num at h⟩

theorem nearestInteger_neg (q : ℚ) : nearestInteger (-q) = -nearestInteger q := by
  refine IsNearest.nearestInteger_eq ?_
  obtain ⟨hnear, heven⟩ := isNearest_nearestInteger q
  have habs : |-q - (-nearestInteger q : ℤ)| = |q - nearestInteger q| := by
    rw [← abs_neg]
    congr 1
    push_cast
    ring
  rw [IsNearest, habs]
  exact ⟨hnear, fun h => (heven h).neg⟩

/-- An integer that bounds a fraction bounds the nearest integer as well. -/
theorem nearestInteger_le {q : ℚ} {n : ℤ} (h : q ≤ n) : nearestInteger q ≤ n := by
  have hnear := (abs_le.mp (isNearest_nearestInteger q).1).1
  have hlt : (nearestInteger q : ℚ) < n + 1 := by linarith
  exact Int.lt_add_one_iff.mp (by exact_mod_cast hlt)

theorem le_nearestInteger {q : ℚ} {n : ℤ} (h : n ≤ q) : n ≤ nearestInteger q := by
  have hneg := nearestInteger_le (q := -q) (n := -n) (by push_cast; linarith)
  rw [nearestInteger_neg] at hneg
  exact neg_le_neg_iff.mp hneg

end Rational

namespace Binary

open Rational (nearestInteger nearestInteger_neg nearestInteger_intCast)

variable {φ : BinaryFormat} {x : ℚ}

/-! ### Units and rounded numbers -/

/-- The exponent of the power of two of which the numbers of the format near `x` are multiples. -/
def unitExponent (φ : BinaryFormat) (x : ℚ) : ℤ :=
  φ.targetExponent (Int.log 2 |x| + 1)

/-- The multiple of the unit that is nearest to `x`. -/
def rounded (φ : BinaryFormat) (x : ℚ) : ℚ :=
  nearestInteger (x / 2 ^ unitExponent φ x) * 2 ^ unitExponent φ x

/-- The number of the format nearest to `x`, unless it is beyond the range of the format. -/
def nearest? (φ : BinaryFormat) (x : ℚ) : Option ℚ :=
  if |rounded φ x| < 2 ^ (φ.exponentBias + 1) then some (rounded φ x) else none

theorem unitExponent_neg (φ : BinaryFormat) (x : ℚ) : unitExponent φ (-x) = unitExponent φ x := by
  rw [unitExponent, abs_neg, unitExponent]

theorem rounded_neg (φ : BinaryFormat) (x : ℚ) : rounded φ (-x) = -rounded φ x := by
  rw [rounded, unitExponent_neg, neg_div, nearestInteger_neg, rounded]
  push_cast
  ring

theorem nearest?_neg (φ : BinaryFormat) (x : ℚ) : nearest? φ (-x) = (nearest? φ x).map (-·) := by
  rw [nearest?, rounded_neg, abs_neg, nearest?]
  split_ifs <;> rfl

@[simp]
theorem rounded_zero (φ : BinaryFormat) : rounded φ 0 = 0 := by
  have hzero : nearestInteger 0 = 0 := by exact_mod_cast nearestInteger_intCast 0
  rw [rounded, zero_div, hzero, Int.cast_zero, zero_mul]

@[simp]
theorem nearest?_zero (φ : BinaryFormat) : nearest? φ 0 = some 0 := by
  rw [nearest?, rounded_zero, abs_zero, if_pos (by positivity)]

theorem minExponent_le_zero (φ : BinaryFormat) : φ.minExponent ≤ 0 := by
  have hpow : (1 : ℤ) ≤ 2 ^ (φ.exponentBits - 1) := one_le_pow₀ (by norm_num)
  have hm := φ.hm
  rw [Float.Model.Format.minExponent, Float.Model.Format.mantissaBits]
  omega

/-- The unit is the least one, or the leading place of the number is that of the significand. -/
theorem unitExponent_eq_max (φ : BinaryFormat) (x : ℚ) :
    unitExponent φ x = max (Int.log 2 |x| + 1 - φ.mantissaBits) φ.minExponent :=
  rfl

theorem minExponent_le_unitExponent (φ : BinaryFormat) (x : ℚ) :
    φ.minExponent ≤ unitExponent φ x :=
  le_max_right _ _

theorem unitExponent_le {e : ℤ} (hx : x ≠ 0) (hlt : |x| < 2 ^ (φ.mantissaBits + e))
    (he : φ.minExponent ≤ e) : unitExponent φ x ≤ e := by
  have hlog : Int.log 2 |x| < φ.mantissaBits + e :=
    (Int.lt_zpow_iff_log_lt Nat.one_lt_two (abs_pos.mpr hx)).mp (by exact_mod_cast hlt)
  rw [unitExponent_eq_max]
  exact max_le (by omega) he

/-- **What fits is not rounded**: a number of as many bits as the significand has, in front of a
power of two that the format has. -/
theorem rounded_intCast_mul_zpow {n e : ℤ} (hn : |n| < 2 ^ φ.mantissaBits)
    (he : φ.minExponent ≤ e) : rounded φ (n * 2 ^ e) = n * 2 ^ e := by
  rcases eq_or_ne n 0 with rfl | hne
  · rw [Int.cast_zero, zero_mul, rounded_zero]
  set u := unitExponent φ (n * 2 ^ e) with hu
  have hle : u ≤ e := by
    refine unitExponent_le (mul_ne_zero (by exact_mod_cast hne) (by positivity)) ?_ he
    rw [abs_mul, abs_of_pos (by positivity : (0 : ℚ) < 2 ^ e), zpow_add₀ two_ne_zero]
    refine mul_lt_mul_of_pos_right ?_ (by positivity)
    exact_mod_cast hn
  -- the number is a multiple of its unit
  have hmultiple : (n * 2 ^ e : ℚ) / 2 ^ u = ((n * 2 ^ (e - u).toNat : ℤ) : ℚ) := by
    rw [mul_div_assoc, ← zpow_sub₀ two_ne_zero, ← Int.toNat_of_nonneg (sub_nonneg.mpr hle),
      zpow_natCast]
    push_cast
    rfl
  rw [rounded, ← hu, hmultiple, nearestInteger_intCast, ← hmultiple,
    div_mul_cancel₀ _ (by positivity)]

theorem nearest?_intCast_mul_zpow {n e : ℤ} (hn : |n| < 2 ^ φ.mantissaBits)
    (he : φ.minExponent ≤ e) (hlt : |(n * 2 ^ e : ℚ)| < 2 ^ (φ.exponentBias + 1)) :
    nearest? φ (n * 2 ^ e) = some (n * 2 ^ e : ℚ) := by
  rw [nearest?, rounded_intCast_mul_zpow hn he, if_pos hlt]

theorem exponentBias_pos (hφ : φ.mantissaBits ≤ φ.exponentBias + 1) : 0 < φ.exponentBias := by
  have hm := φ.hm
  rw [Float.Model.Format.mantissaBits] at hφ
  omega

/-- The integers whose bits fit into a significand are not rounded. -/
theorem nearest?_intCast (hφ : φ.mantissaBits ≤ φ.exponentBias + 1) {n : ℤ}
    (hn : |n| < 2 ^ φ.mantissaBits) : nearest? φ n = some (n : ℚ) := by
  have hlt : |(n : ℚ)| < 2 ^ (φ.exponentBias + 1) := by
    calc |(n : ℚ)| < 2 ^ φ.mantissaBits := by exact_mod_cast hn
      _ ≤ 2 ^ (φ.exponentBias + 1) := pow_le_pow_right₀ one_le_two hφ
  have hnearest := nearest?_intCast_mul_zpow hn (minExponent_le_zero φ)
  rw [zpow_zero, mul_one] at hnearest
  exact hnearest hlt

end Binary

end LinearSystems
