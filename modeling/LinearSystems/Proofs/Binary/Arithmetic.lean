import LinearSystems.Proofs.Binary.Significand

/-!
# The arithmetic of floating-point elements

Each operation is the exact one, rounded once: `value?_sub`, `value?_mul`, `value?_div` and
`value?_ofInt` give the value of a result as that of the exact result, rounded by `nearest?`. A
difference and a product have a value only if both operands have one. A quotient is considered here
only for two values of which the second is not zero.

The operations differ in how many bits of the exact result they compute. A sum and an integer are
computed to the last bit. Of a product there are always enough: either one of the factors brings all
bits of a significand, or both are counted in the least unit, which is more than the product can
have. A quotient is computed to the unit that the leading bits of the operands announce, which is
that of the quotient or the next lower one.
-/

namespace LinearSystems.Binary

open Float.Model (UnpackedFloat)
open Float.Model.UnpackedFloat

variable {φ : BinaryFormat} {x y : Binary φ} {a b : ℚ}

/-! ### Numbers of the format -/

theorem isRounded_unpack (x : Binary φ) : IsRounded φ x.unpack := by
  cases h : x.unpack with
  | finite s m e hm => exact isCanonical_of_unpack_eq h
  | _ => trivial

/-- A number of the format is not rounded. -/
theorem rounded_of_isRounded {u : UnpackedFloat} (hu : IsRounded φ u) (hq : number? u = some a) :
    rounded φ a = a := by
  cases u with
  | infinity s => cases hq
  | notANumber => cases hq
  | zero s =>
    obtain rfl : 0 = a := Option.some.inj hq
    exact rounded_zero φ
  | finite s m e hm =>
    obtain rfl : s.apply m * 2 ^ e = a := Option.some.inj hq
    refine rounded_intCast_mul_zpow ?_ hu.minExponent_le
    have habs : |s.apply m| = m := by cases s <;> simp [Sign.apply]
    rw [habs]
    exact_mod_cast hu.lt

theorem value?_ofUnpacked_eq_nearest? (hφ : 0 < φ.exponentBias) {u : UnpackedFloat}
    (hu : IsRounded φ u) (hq : number? u = some a) :
    (ofUnpacked u : Binary φ).value? = nearest? φ a := by
  rw [value?_ofUnpacked hφ hu hq, nearest?, rounded_of_isRounded hu hq]

/-! ### Integers and differences -/

/-- **The element nearest to an integer.** -/
theorem value?_ofInt (hφ : 0 < φ.exponentBias) (n : ℤ) :
    (ofInt n : Binary φ).value? = nearest? φ n := by
  rw [ofInt, UnpackedFloat.ofInt, value?_normalize hφ, zpow_zero, mul_one]

theorem apply_neg (s : Sign) (n : ℤ) : (-s).apply n = -s.apply n := by
  cases s
  · exact (neg_neg n).symm
  · rfl

/-- The difference of two numbers is computed in the lower of their two units. -/
theorem sub_finite {s t : Sign} {m n : ℕ} {d e : ℤ} (hm : 0 < m) (hn : 0 < n) :
    UnpackedFloat.sub φ (.finite s m d hm) (.finite t n e hn) =
      UnpackedFloat.normalize φ
        (s.apply (m <<< (d - min d e).toNat : ℕ) - t.apply (n <<< (e - min d e).toNat : ℕ))
        (min d e) .positive :=
  rfl

theorem apply_shiftLeft_mul_zpow (s : Sign) (m : ℕ) {d e : ℤ} (h : e ≤ d) :
    (s.apply (m <<< (d - e).toNat : ℕ) * 2 ^ e : ℚ) = s.apply m * 2 ^ d := by
  have hpow : (2 : ℚ) ^ d = 2 ^ (d - e).toNat * 2 ^ e := by
    rw [← zpow_natCast, ← zpow_add₀ two_ne_zero]
    congr 1
    omega
  rw [Nat.shiftLeft_eq, hpow]
  cases s <;> simp only [Sign.apply] <;> push_cast <;> ring

/-- **A difference is rounded once.** -/
theorem value?_sub (hφ : 0 < φ.exponentBias) (x y : Binary φ) :
    (x.sub y).value? = x.value?.bind fun a => y.value?.bind fun b => nearest? φ (a - b) := by
  have hx := isRounded_unpack x
  have hy := isRounded_unpack y
  change (ofUnpacked (UnpackedFloat.sub φ x.unpack y.unpack) : Binary φ).value? =
    (number? x.unpack).bind fun a => (number? y.unpack).bind fun b => nearest? φ (a - b)
  generalize x.unpack = u at hx
  generalize y.unpack = v at hy
  -- a NaN or an infinity gives another, and a zero gives what is known to be rounded
  cases u with
  | notANumber => exact value?_ofUnpacked_eq_none rfl
  | infinity s =>
    refine value?_ofUnpacked_eq_none ?_
    cases v
    case infinity t => cases s <;> cases t <;> rfl
    all_goals rfl
  | zero s =>
    cases v with
    | notANumber => exact value?_ofUnpacked_eq_none rfl
    | infinity t => exact value?_ofUnpacked_eq_none rfl
    | zero t =>
      refine value?_ofUnpacked_eq_nearest? hφ ?_ ?_
      · cases s <;> cases t <;> trivial
      · rw [sub_zero]
        cases s <;> cases t <;> rfl
    | finite t n e hn =>
      refine value?_ofUnpacked_eq_nearest? hφ (u := .finite (-t) n e hn) hy ?_
      rw [number?, apply_neg, zero_sub, Int.cast_neg, neg_mul]
  | finite s m d hm =>
    cases v with
    | notANumber => exact value?_ofUnpacked_eq_none rfl
    | infinity t => exact value?_ofUnpacked_eq_none rfl
    | zero t =>
      refine value?_ofUnpacked_eq_nearest? hφ (u := .finite s m d hm) hx ?_
      rw [number?, sub_zero]
    | finite t n e hn =>
      rw [sub_finite, value?_normalize hφ, Int.cast_sub, sub_mul,
        apply_shiftLeft_mul_zpow s m (min_le_left d e),
        apply_shiftLeft_mul_zpow t n (min_le_right d e)]
      rfl

/-! ### Products and quotients -/

theorem apply_eq_mul (s : Sign) (m : ℕ) : (s.apply m : ℚ) = s.apply 1 * m := by
  cases s <;> simp [Sign.apply]

theorem apply_one_mul (s t : Sign) : (s * t).apply 1 = s.apply 1 * t.apply 1 := by
  cases s <;> cases t <;> rfl

theorem apply_one_div (s t : Sign) : ((s / t).apply 1 : ℚ) = s.apply 1 / t.apply 1 := by
  have hdiv : s / t = s * t := by cases s <;> cases t <;> rfl
  rw [hdiv, apply_one_mul, Int.cast_mul]
  cases t <;> simp [Sign.apply, div_neg]

/-- Of a product of two numbers there are enough bits: one of the factors brings those of a
significand, or both are counted in the least unit. -/
theorem add_le_unitExponent {m n : ℕ} {d e : ℤ} (hm : 0 < m) (hn : 0 < n)
    (hcm : IsCanonical φ m d) (hcn : IsCanonical φ n e) :
    d + e ≤ unitExponent φ ((m * n : ℕ) * 2 ^ (d + e)) := by
  have hmin := minExponent_le_zero φ
  have hmn : 0 < m * n := Nat.mul_pos hm hn
  have hlarge (h : 2 ^ φ.mantissaBitsWithoutImplicit ≤ m * n) :
      φ.mantissaBitsWithoutImplicit ≤ (m * n).log2 :=
    (Nat.le_log2 hmn.ne').mpr h
  rw [unitExponent_natCast_mul_zpow hmn, Float.Model.Format.targetExponent,
    Float.Model.totalExponent, Float.Model.Format.mantissaBits]
  rcases hcm.normal_or_least with hm' | hd
  · have := hlarge (hm'.trans (Nat.le_mul_of_pos_right m hn))
    omega
  rcases hcn.normal_or_least with hn' | he
  · have := hlarge (hn'.trans (Nat.le_mul_of_pos_left n hm))
    omega
  · omega

/-- **A product is rounded once.** -/
theorem value?_mul (hφ : 0 < φ.exponentBias) (x y : Binary φ) :
    (x.mul y).value? = x.value?.bind fun a => y.value?.bind fun b => nearest? φ (a * b) := by
  have hx := isRounded_unpack x
  have hy := isRounded_unpack y
  change (ofUnpacked (UnpackedFloat.mul φ x.unpack y.unpack) : Binary φ).value? =
    (number? x.unpack).bind fun a => (number? y.unpack).bind fun b => nearest? φ (a * b)
  generalize x.unpack = u at hx
  generalize y.unpack = v at hy
  cases u with
  | notANumber => exact value?_ofUnpacked_eq_none rfl
  | infinity s => exact value?_ofUnpacked_eq_none (by cases v <;> rfl)
  | zero s =>
    cases v with
    | notANumber => exact value?_ofUnpacked_eq_none rfl
    | infinity t => exact value?_ofUnpacked_eq_none rfl
    | zero t => exact value?_ofUnpacked_eq_nearest? hφ (u := .zero _) trivial (by simp [number?])
    | finite t n e hn =>
      exact value?_ofUnpacked_eq_nearest? hφ (u := .zero _) trivial (by simp [number?])
  | finite s m d hm =>
    cases v with
    | notANumber => exact value?_ofUnpacked_eq_none rfl
    | infinity t => exact value?_ofUnpacked_eq_none rfl
    | zero t => exact value?_ofUnpacked_eq_nearest? hφ (u := .zero _) trivial (by simp [number?])
    | finite t n e hn =>
      have hdescribes : Describes (.ofMantissaAndAccuracy (m * n) .exact)
          ((m * n : ℕ) * 2 ^ (d + e) / 2 ^ (d + e)) := by
        rw [mul_div_cancel_right₀ _ (by positivity)]
        exact describes_exact _
      have hround := value?_roundWithAccuracy hφ (s * t) (by positivity) hdescribes
        (add_le_unitExponent hm hn hx hy)
      refine hround.trans (congrArg _ ?_)
      rw [apply_eq_mul s m, apply_eq_mul t n, apply_one_mul, zpow_add₀ two_ne_zero]
      push_cast
      ring

/-- A zero stays one in products, unless it meets an infinity or a NaN. -/
theorem isZero_or_isNaN_mul (x : Binary φ) {y : Binary φ} (hy : y.isZero = true) :
    (x.mul y).isZero = true ∨ (x.mul y).isNaN = true := by
  have hnan : (ofUnpacked .notANumber : Binary φ).isNaN = true := isNaN_nan
  have hzero (s : Float.Model.UnpackedFloat.Sign) :
      (ofUnpacked (.zero s) : Binary φ).isZero = true := by
    rw [← value?_eq_some_zero_iff, value?, unpack_ofUnpacked_zero, number?]
  rw [mul, unpack_eq_zero_iff.mpr ⟨hy, rfl⟩]
  cases x.unpack with
  | infinity s => exact Or.inr hnan
  | notANumber => exact Or.inr hnan
  | zero s => exact Or.inl (hzero _)
  | finite s m e hm => exact Or.inl (hzero _)

/-- A quotient is computed to the unit that the leading bits of the operands announce. It is not
beyond that of the quotient. -/
theorem divCore_eq {m n : ℕ} {d e : ℤ} (hm : 0 < m) (hn : 0 < n) :
    let x : ℚ := m * 2 ^ d / (n * 2 ^ e)
    let result := divCore φ m d n e
    Describes (.ofMantissaAndAccuracy result.1 result.2.2) (x / 2 ^ result.2.1) ∧
      result.2.1 ≤ unitExponent φ x := by
  have hm' : (0 : ℚ) < m := by exact_mod_cast hm
  have hn' : (0 : ℚ) < n := by exact_mod_cast hn
  have hlog : (m.log2 : ℤ) + d - (n.log2 + e) - 1 ≤ Int.log 2 (m * 2 ^ d / (n * 2 ^ e) : ℚ) := by
    have hmlog : (2 ^ m.log2 : ℚ) ≤ m := by exact_mod_cast Nat.log2_self_le hm.ne'
    have hnlog : (n : ℚ) ≤ 2 ^ (n.log2 + 1) := by exact_mod_cast Nat.lt_log2_self.le
    rw [← Int.zpow_le_iff_le_log Nat.one_lt_two (by positivity), Nat.cast_ofNat]
    calc (2 : ℚ) ^ ((m.log2 : ℤ) + d - (n.log2 + e) - 1)
        = 2 ^ m.log2 * 2 ^ d / (2 ^ (n.log2 + 1) * 2 ^ e) := by
          rw [← zpow_natCast, ← zpow_natCast, ← zpow_add₀ two_ne_zero, ← zpow_add₀ two_ne_zero,
            ← zpow_sub₀ two_ne_zero]
          congr 1
          push_cast
          ring
      _ ≤ m * 2 ^ d / (n * 2 ^ e) := by
          gcongr
  dsimp only [divCore]
  set k := min (d - e)
    (φ.targetExponent (Float.Model.totalExponent m d - Float.Model.totalExponent n e)) with hk
  constructor
  · have hquotient : (m * 2 ^ d / (n * 2 ^ e) / 2 ^ k : ℚ) =
        (m <<< (d - e - k).toNat : ℕ) / (n : ℕ) := by
      have hpow : (2 : ℚ) ^ d = 2 ^ (d - e - k).toNat * 2 ^ e * 2 ^ k := by
        rw [← zpow_natCast, ← zpow_add₀ two_ne_zero, ← zpow_add₀ two_ne_zero]
        congr 1
        omega
      rw [hpow, Nat.shiftLeft_eq]
      push_cast
      field_simp
    rw [hquotient]
    exact describes_quotient _ hn
  · rw [unitExponent_eq_max, abs_of_pos (by positivity)]
    refine (min_le_right _ _).trans (max_le_max ?_ le_rfl)
    rw [Float.Model.totalExponent, Float.Model.totalExponent]
    omega

/-- **A quotient is rounded once**, if the divisor is not zero. -/
theorem value?_div (hφ : 0 < φ.exponentBias) (hx : x.value? = some a) (hy : y.value? = some b)
    (hb : b ≠ 0) : (x.div y).value? = nearest? φ (a / b) := by
  change (ofUnpacked (UnpackedFloat.div φ x.unpack y.unpack) : Binary φ).value? = _
  rw [value?] at hx hy
  generalize x.unpack = u at hx
  generalize y.unpack = v at hy
  cases v with
  | notANumber => cases hy
  | infinity t => cases hy
  | zero t => exact absurd (Option.some.inj hy).symm hb
  | finite t n e hn =>
    cases u with
    | notANumber => cases hx
    | infinity s => cases hx
    | zero s =>
      obtain rfl : 0 = a := Option.some.inj hx
      exact value?_ofUnpacked_eq_nearest? hφ (u := .zero _) trivial (by simp [number?])
    | finite s m d hm =>
      obtain rfl : s.apply m * 2 ^ d = a := Option.some.inj hx
      obtain rfl : t.apply n * 2 ^ e = b := Option.some.inj hy
      obtain ⟨hdescribes, hle⟩ := divCore_eq (φ := φ) (d := d) (e := e) hm hn
      refine (value?_roundWithAccuracy hφ (s / t) (by positivity) hdescribes hle).trans
        (congrArg _ ?_)
      rw [apply_eq_mul s m, apply_eq_mul t n, apply_one_div]
      ring

end LinearSystems.Binary
