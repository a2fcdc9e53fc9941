import LinearSystems.Proofs.Binary.Fields
import LinearSystems.Proofs.Binary.Rounding

/-!
# The number that a bit pattern stands for

`value? x` is the number of an element, as a fraction; infinities and NaNs have none. The two zeros
have the value zero, and they are the only ones (`value?_eq_some_zero_iff`).

A significand and an exponent are canonical for a format if they are those of some pattern
(`IsCanonical`): the significand fits, and either it begins with the implicit bit or the exponent is
the least one. Apart from the range of the exponent these are all conditions: packing a canonical
number and unpacking the pattern gives the number back, or the infinity of its sign if the exponent
is too large (`unpack_ofUnpacked_finite`). So packing keeps a number below the bound of the format,
and gives no number otherwise (`value?_ofUnpacked`).

For all of this an exponent field of one bit would be too little: there is then no exponent field
between those of zero and of infinity.
-/

namespace LinearSystems.Binary

open Float.Model (UnpackedFloat)
open Float.Model.UnpackedFloat (Sign)

variable {φ : BinaryFormat} {m : ℕ} {e : ℤ} {s : Sign}

/-- The largest exponent of a number of the format. -/
def maxExponent (φ : BinaryFormat) : ℤ :=
  φ.exponentBias - φ.mantissaBitsWithoutImplicit

/-- The significand `m` and the exponent `e` are in the form in which a pattern has them. -/
structure IsCanonical (φ : BinaryFormat) (m : ℕ) (e : ℤ) : Prop where
  lt : m < 2 ^ φ.mantissaBits
  minExponent_le : φ.minExponent ≤ e
  normal_or_least : 2 ^ φ.mantissaBitsWithoutImplicit ≤ m ∨ e = φ.minExponent

/-- A finite number is canonical. -/
def IsRounded (φ : BinaryFormat) : UnpackedFloat → Prop
  | .finite _ m e _ => IsCanonical φ m e
  | _ => True

/-- The number as a fraction. -/
def number? : UnpackedFloat → Option ℚ
  | .finite s m e _ => some (s.apply m * 2 ^ e)
  | .zero _ => some 0
  | .infinity _ => none
  | .notANumber => none

/-- The number that a pattern stands for, if it stands for one. -/
def value? (x : Binary φ) : Option ℚ :=
  number? x.unpack

/-! ### Packing a number -/

theorem two_pow_mantissaBits (φ : BinaryFormat) :
    2 ^ φ.mantissaBits = 2 * 2 ^ φ.mantissaBitsWithoutImplicit := by
  rw [Float.Model.Format.mantissaBits, pow_add, pow_one]

theorem two_pow_exponentBits (φ : BinaryFormat) :
    2 ^ φ.exponentBits = 2 * (φ.exponentBias + 1) := by
  have hpow : 1 ≤ 2 ^ (φ.exponentBits - 1) := Nat.one_le_two_pow
  rw [Float.Model.Format.exponentBias, Nat.sub_add_cancel hpow, ← pow_succ',
    Nat.sub_add_cancel φ.he]

theorem unpack_ofFields_full (s : Sign) :
    (ofFields φ s (2 ^ φ.exponentBits - 1) 0).unpack = .infinity s := by
  have hlt := two_le_two_pow_exponentBits φ
  rw [unpack_eq, exponentField_ofFields _ _ (by omega), fraction_ofFields, Nat.zero_mod,
    sign_ofFields, if_pos rfl, if_pos rfl]

theorem unpack_ofFields_subnormal (s : Sign) (hm : 0 < m)
    (hlt : m < 2 ^ φ.mantissaBitsWithoutImplicit) :
    (ofFields φ s 0 m).unpack = .finite s m φ.minExponent hm := by
  have hfull := two_le_two_pow_exponentBits φ
  have hfraction : (ofFields φ s 0 m).fraction = m := by
    rw [fraction_ofFields, Nat.mod_eq_of_lt hlt]
  rw [unpack_eq, exponentField_ofFields _ _ (by omega), if_neg (by omega), if_pos rfl]
  simp only [hfraction, sign_ofFields, dif_neg hm.ne']

theorem unpack_ofFields_normal (s : Sign) {k : ℕ} (hk : 0 < k) (hfull : k < 2 ^ φ.exponentBits - 1)
    (hle : 2 ^ φ.mantissaBitsWithoutImplicit ≤ m) (hlt : m < 2 ^ φ.mantissaBits) :
    (ofFields φ s k m).unpack =
      .finite s m (φ.minExponent + (k - 1 : ℕ)) ((Nat.two_pow_pos _).trans_le hle) := by
  have hfraction : 2 ^ φ.mantissaBitsWithoutImplicit + (ofFields φ s k m).fraction = m := by
    rw [two_pow_mantissaBits] at hlt
    rw [fraction_ofFields, Nat.mod_eq_sub_mod hle, Nat.mod_eq_of_lt (by omega)]
    omega
  rw [unpack_eq, exponentField_ofFields _ _ (by omega), if_neg hfull.ne, if_neg hk.ne']
  simp only [hfraction, sign_ofFields]

/-- How a finite number is packed: the exponent field counts from the least exponent, and the
implicit bit tells the normal numbers from the subnormal ones. -/
theorem ofUnpacked_finite (s : Sign) (hm : 0 < m) (h : IsCanonical φ m e) :
    (ofUnpacked (.finite s m e hm) : Binary φ) =
      if maxExponent φ < e then ofFields φ s (2 ^ φ.exponentBits - 1) 0
      else if 2 ^ φ.mantissaBitsWithoutImplicit ≤ m then
        ofFields φ s ((e - φ.minExponent).toNat + 1) m
      else ofFields φ s 0 m := by
  have hle := h.minExponent_le
  have hmin := minExponent_eq φ
  have hfield : (e + φ.exponentBias + φ.mantissaBitsWithoutImplicit).toNat =
      (e - φ.minExponent).toNat + 1 := by
    omega
  have hrange : 2 ^ φ.exponentBits ≤ (e - φ.minExponent).toNat + 1 + 1 ↔ maxExponent φ < e := by
    rw [two_pow_exponentBits, maxExponent]
    omega
  have himplicit : m.log2 + 1 = φ.mantissaBits ↔ 2 ^ φ.mantissaBitsWithoutImplicit ≤ m := by
    have hlog := (Nat.log2_lt hm.ne').mpr h.lt
    rw [← Nat.le_log2 hm.ne']
    rw [Float.Model.Format.mantissaBits] at hlog ⊢
    omega
  rw [ofUnpacked, UnpackedFloat.pack]
  simp only [hfield, hrange, himplicit]
  split_ifs
  · exact ofUnpacked_infinity s
  · rfl
  · rfl

/-- **What is packed can be unpacked**, unless the exponent is too large. -/
theorem unpack_ofUnpacked_finite (s : Sign) (hm : 0 < m) (h : IsCanonical φ m e) :
    (ofUnpacked (.finite s m e hm) : Binary φ).unpack =
      if e ≤ maxExponent φ then .finite s m e hm else .infinity s := by
  have hle := h.minExponent_le
  rw [ofUnpacked_finite s hm h]
  rcases lt_or_ge (maxExponent φ) e with hrange | hrange
  · rw [if_pos hrange, if_neg (by omega), unpack_ofFields_full]
  rw [if_neg (by omega), if_pos hrange]
  split_ifs with hnormal
  · have hfield : (e - φ.minExponent).toNat + 1 < 2 ^ φ.exponentBits - 1 := by
      have hmin := minExponent_eq φ
      rw [maxExponent] at hrange
      rw [two_pow_exponentBits]
      omega
    have hexponent : φ.minExponent + ((e - φ.minExponent).toNat + 1 - 1 : ℕ) = e := by
      omega
    simp only [unpack_ofFields_normal s (Nat.succ_pos _) hfield hnormal h.lt, hexponent]
  · obtain rfl := h.normal_or_least.resolve_left hnormal
    exact unpack_ofFields_subnormal s hm (Nat.lt_of_not_le hnormal)

/-- The finite numbers of patterns are canonical. -/
theorem isCanonical_of_unpack_eq {x : Binary φ} {hm : 0 < m} (h : x.unpack = .finite s m e hm) :
    IsCanonical φ m e := by
  have hlt := x.fraction_lt
  have htwo := two_pow_mantissaBits φ
  rw [unpack_eq] at h
  split_ifs at h with hfull hempty hnone hempty
  all_goals
    obtain ⟨-, rfl, rfl⟩ := UnpackedFloat.finite.injEq .. ▸ h
  · exact ⟨by omega, le_rfl, Or.inr rfl⟩
  · exact ⟨by omega, by omega, Or.inl (Nat.le_add_right _ _)⟩

/-! ### Values -/

theorem abs_apply_mul_zpow (s : Sign) (m : ℕ) (e : ℤ) :
    |(s.apply m * 2 ^ e : ℚ)| = m * 2 ^ e := by
  have hpos : (0 : ℚ) ≤ m * 2 ^ e := by positivity
  cases s
  · rw [Sign.apply, Int.cast_neg, Int.cast_natCast, neg_mul, abs_neg, abs_of_nonneg hpos]
  · rw [Sign.apply, Int.cast_natCast, abs_of_nonneg hpos]

/-- The largest exponent is the one up to which all canonical numbers stay below the bound. -/
theorem mul_zpow_lt_iff (hφ : 0 < φ.exponentBias) (h : IsCanonical φ m e) :
    (m * 2 ^ e : ℚ) < 2 ^ (φ.exponentBias + 1) ↔ e ≤ maxExponent φ := by
  have hmin := minExponent_eq φ
  have hbound : (2 ^ (φ.exponentBias + 1) : ℚ) =
      2 ^ (φ.mantissaBits : ℤ) * 2 ^ maxExponent φ := by
    rw [← zpow_add₀ two_ne_zero, ← zpow_natCast, maxExponent, Float.Model.Format.mantissaBits]
    congr 1
    push_cast
    ring
  rw [hbound, zpow_natCast]
  constructor
  · intro hlt
    by_contra! hgt
    -- beyond the largest exponent a canonical number has its implicit bit
    have hm : 2 ^ φ.mantissaBitsWithoutImplicit ≤ m :=
      h.normal_or_least.resolve_right (by rw [maxExponent] at hgt; omega)
    have hm' : (2 ^ φ.mantissaBitsWithoutImplicit : ℚ) ≤ m := by exact_mod_cast hm
    have he : (2 : ℚ) ^ (maxExponent φ + 1) ≤ 2 ^ e := zpow_le_zpow_right₀ one_le_two hgt
    have hle : (2 ^ φ.mantissaBits : ℚ) * 2 ^ maxExponent φ ≤ m * 2 ^ e := by
      calc (2 ^ φ.mantissaBits : ℚ) * 2 ^ maxExponent φ
          = 2 ^ φ.mantissaBitsWithoutImplicit * 2 ^ (maxExponent φ + 1) := by
            rw [Float.Model.Format.mantissaBits, zpow_add₀ two_ne_zero, pow_add]
            ring
        _ ≤ m * 2 ^ e := mul_le_mul hm' he (by positivity) (by positivity)
    exact absurd hlt (not_lt.mpr hle)
  · intro hle
    have hm : (m : ℚ) < 2 ^ φ.mantissaBits := by exact_mod_cast h.lt
    exact mul_lt_mul hm (zpow_le_zpow_right₀ one_le_two hle) (by positivity) (by positivity)

/-- **Packing keeps a number below the bound**, and gives no number beyond it. -/
theorem value?_ofUnpacked (hφ : 0 < φ.exponentBias) {u : UnpackedFloat} {q : ℚ}
    (hu : IsRounded φ u) (hq : number? u = some q) :
    (ofUnpacked u : Binary φ).value? = if |q| < 2 ^ (φ.exponentBias + 1) then some q else none := by
  cases u with
  | infinity s => cases hq
  | notANumber => cases hq
  | zero s =>
    obtain rfl : 0 = q := Option.some.inj hq
    rw [abs_zero, if_pos (by positivity), value?, unpack_ofUnpacked_zero, number?]
  | finite s m e hm =>
    obtain rfl : s.apply m * 2 ^ e = q := Option.some.inj hq
    rw [abs_apply_mul_zpow, value?, unpack_ofUnpacked_finite s hm hu]
    simp only [mul_zpow_lt_iff hφ hu]
    split_ifs <;> rfl

/-- What is no number is not packed into one. -/
theorem value?_ofUnpacked_eq_none {u : UnpackedFloat} (hu : number? u = none) :
    (ofUnpacked u : Binary φ).value? = none := by
  cases u with
  | infinity s => rw [value?, ofUnpacked_infinity, unpack_ofFields_full, number?]
  | notANumber =>
    have hnan : (nan : Binary φ).unpack = .notANumber := unpack_eq_notANumber_iff.mpr isNaN_nan
    rw [value?, ← nan, hnan, number?]
  | zero s => cases hu
  | finite s m e hm => cases hu

/-- **Only the zeros have the value zero.** -/
theorem value?_eq_some_zero_iff {x : Binary φ} : x.value? = some 0 ↔ x.isZero = true := by
  constructor
  · intro h
    rw [value?] at h
    cases hx : x.unpack with
    | infinity s => rw [hx] at h; cases h
    | notANumber => rw [hx] at h; cases h
    | zero s => exact (unpack_eq_zero_iff.mp hx).1
    | finite s m e hm =>
      rw [hx, number?, Option.some.injEq] at h
      have habs := abs_apply_mul_zpow s m e
      rw [h, abs_zero] at habs
      have hpos : (0 : ℚ) < m * 2 ^ e := by positivity
      exact absurd habs hpos.ne
  · intro h
    rw [value?, unpack_eq_zero_iff.mpr ⟨h, rfl⟩, number?]

theorem isZero_eq_of_value? {x : Binary φ} {q : ℚ} (h : x.value? = some q) :
    x.isZero = decide (q = 0) := by
  rw [Bool.eq_iff_iff, ← value?_eq_some_zero_iff, h, Option.some.injEq, decide_eq_true_eq]

end LinearSystems.Binary
