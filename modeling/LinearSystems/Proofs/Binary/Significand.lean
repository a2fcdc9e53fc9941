import LinearSystems.Proofs.Binary.Value

/-!
# Rounding a significand

An operation computes the leading bits of the exact result and drops those that the format has no
place for, one at a time. What is dropped leaves two bits behind, by which the exact result can
still be rounded: whether it lies halfway or more above the bits that are left, and whether there is
anything else. `Describes em q` says that these bits speak of `q`; dropping a bit keeps it true of
`q / 2` (`Describes.shiftRightOne`), and the rounded significand is the integer nearest to `q`
(`Describes.roundedMantissa_eq`).

How many bits are dropped is read off the significand (`targetExponent_eq`), and that is as it
should be if no more of them are missing than the unit of the number allows. Then the result is the
number rounded to its unit, in canonical form (`roundWithAccuracy_eq`). With a significand of exact
bits nothing is missing (`value?_normalize`).
-/

namespace LinearSystems.Binary

open Float.Model (UnpackedFloat)
open Float.Model.UnpackedFloat
open Rational (nearestInteger IsNearest)

variable {φ : BinaryFormat} {em : ExtendedMantissa} {q : ℚ}

/-! ### Dropping bits -/

/-- The fraction `q` lies above the significand by a half, if the round bit is set, and by a rest of
less than a half, which is zero unless the sticky bit is set. -/
def Describes (em : ExtendedMantissa) (q : ℚ) : Prop :=
  ∃ rest : ℚ, 0 ≤ rest ∧ rest < 1 / 2 ∧ (em.stickyBit = true ↔ rest ≠ 0) ∧
    q = em.mantissa + (if em.roundBit = true then 1 / 2 else 0) + rest

/-- One bit less describes the half. -/
theorem Describes.shiftRightOne (h : Describes em q) : Describes em.shiftRightOne (q / 2) := by
  obtain ⟨rest, hpos, hlt, hsticky, hq⟩ := h
  have hsplit : (em.mantissa : ℚ) = 2 * (em.mantissa / 2 : ℕ) + (em.mantissa % 2 : ℕ) := by
    exact_mod_cast (Nat.div_add_mod em.mantissa 2).symm
  refine ⟨((if em.roundBit = true then 1 / 2 else 0) + rest) / 2, ?_, ?_, ?_, ?_⟩
  · split_ifs <;> linarith
  · split_ifs <;> linarith
  · simp only [ExtendedMantissa.shiftRightOne, Bool.or_eq_true, hsticky]
    cases em.roundBit
    · simp
    · simp only [true_or, if_true, true_iff]
      linarith
  · rw [hq, hsplit]
    simp only [ExtendedMantissa.shiftRightOne, bne_iff_ne]
    rcases Nat.mod_two_eq_zero_or_one em.mantissa with hbit | hbit <;> rw [hbit] <;> simp <;> ring

theorem Describes.shiftRight (h : Describes em q) (n : ℕ) : Describes (em >>> n) (q / 2 ^ n) := by
  change Describes (n.repeat ExtendedMantissa.shiftRightOne em) _
  induction n with
  | zero => simpa [Nat.repeat] using h
  | succ n ih =>
    rw [Nat.repeat, pow_succ, ← div_div]
    exact ih.shiftRightOne

/-- The significand alone is the integer part. -/
theorem Describes.floor_eq (h : Describes em q) : ⌊q⌋ = em.mantissa := by
  obtain ⟨rest, hpos, hlt, -, hq⟩ := h
  rw [Int.floor_eq_iff, hq, Int.cast_natCast]
  split_ifs <;> constructor <;> linarith

/-- **The bits that are left decide the rounding.** -/
theorem Describes.roundedMantissa_eq (h : Describes em q) :
    nearestInteger q = em.roundedMantissa := by
  obtain ⟨rest, hpos, hlt, hsticky, hq⟩ := h
  refine IsNearest.nearestInteger_eq ?_
  obtain ⟨m, round, sticky⟩ := em
  simp only at hsticky hq
  rw [ExtendedMantissa.roundedMantissa]
  cases round <;> cases sticky <;>
    simp only [Bool.false_eq_true, false_iff, true_iff, not_not, if_true, if_false, ne_eq,
      add_zero] at hsticky hq <;>
    simp only [IsNearest, ExtendedMantissa.accuracy, Accuracy.roundToNearestEven, Int.cast_natCast]
  · rw [hq, hsticky]
    norm_num
  · have hdiff : q - m = rest := by linarith
    rw [hdiff, abs_of_nonneg hpos]
    exact ⟨hlt.le, fun h => absurd h hlt.ne⟩
  -- halfway between two integers, of which one is even
  · rcases Nat.mod_two_eq_zero_or_one m with hbit | hbit
    · have hdiff : q - m = 1 / 2 := by linarith
      rw [hbit, add_zero, hdiff]
      exact ⟨by norm_num, fun _ => (Int.even_coe_nat m).mpr (Nat.even_iff.mpr hbit)⟩
    · have hdiff : q - (m + 1 : ℕ) = -(1 / 2) := by
        push_cast
        linarith
      rw [hbit, hdiff]
      exact ⟨by norm_num, fun _ => (Int.even_coe_nat _).mpr
        (Nat.even_add_one.mpr (Nat.not_even_iff.mpr hbit))⟩
  · have hdiff : q - (m + 1 : ℕ) = -(1 / 2 - rest) := by
      push_cast
      linarith
    rw [hdiff, abs_neg, abs_of_pos (by linarith)]
    exact ⟨by linarith, fun h => absurd (by linarith) hsticky⟩

/-- An integer is described by itself. -/
theorem describes_exact (m : ℕ) : Describes (.ofMantissaAndAccuracy m .exact) m :=
  ⟨0, le_rfl, by norm_num, by simp [ExtendedMantissa.ofMantissaAndAccuracy],
    by simp [ExtendedMantissa.ofMantissaAndAccuracy]⟩

/-- A quotient is described by its integer part and the comparison of twice the remainder with the
divisor. -/
theorem describes_quotient (n : ℕ) {d : ℕ} (hd : 0 < d) :
    Describes (.ofMantissaAndAccuracy (n / d) (accuracyOfFraction (n % d) d)) (n / d) := by
  have hd' : (0 : ℚ) < d := by exact_mod_cast hd
  have hquotient : (n / d : ℚ) = (n / d : ℕ) + (n % d : ℕ) / d := by
    have hn : (n : ℚ) = d * (n / d : ℕ) + (n % d : ℕ) := by
      exact_mod_cast (Nat.div_add_mod n d).symm
    rw [hn, add_div, mul_div_cancel_left₀ _ hd'.ne']
  have hlt : ((n % d : ℕ) / d : ℚ) < 1 := by
    rw [div_lt_one hd']
    exact_mod_cast Nat.mod_lt n hd
  generalize n % d = r at *
  rw [hquotient, accuracyOfFraction]
  split_ifs with hzero
  · rw [hzero, Nat.cast_zero, zero_div, add_zero]
    exact describes_exact _
  have hpos : (0 : ℚ) < r / d := by positivity
  cases h : compare (2 * r) d with
  | lt =>
    have hhalf : (r / d : ℚ) < 1 / 2 := by
      rw [div_lt_div_iff₀ hd' two_pos]
      exact_mod_cast (by rw [Nat.compare_eq_lt] at h; omega)
    exact ⟨r / d, hpos.le, hhalf, by simp [ExtendedMantissa.ofMantissaAndAccuracy, hpos.ne'], by
      simp [ExtendedMantissa.ofMantissaAndAccuracy]⟩
  | eq =>
    have hhalf : (r / d : ℚ) = 1 / 2 := by
      rw [div_eq_div_iff hd'.ne' two_ne_zero]
      exact_mod_cast (by rw [Nat.compare_eq_eq] at h; omega)
    exact ⟨0, le_rfl, by norm_num, by simp [ExtendedMantissa.ofMantissaAndAccuracy], by
      simp [ExtendedMantissa.ofMantissaAndAccuracy, hhalf]⟩
  | gt =>
    have hhalf : (1 / 2 : ℚ) < r / d := by
      rw [div_lt_div_iff₀ two_pos hd']
      exact_mod_cast (by rw [Nat.compare_eq_gt] at h; omega)
    refine ⟨r / d - 1 / 2, by linarith, by linarith, ?_, ?_⟩
    · simpa [ExtendedMantissa.ofMantissaAndAccuracy] using (by linarith : (r / d : ℚ) - 2⁻¹ ≠ 0)
    · simp [ExtendedMantissa.ofMantissaAndAccuracy]

/-! ### Rounding -/

/-- The place of the leading bit of a number is that of its integer part in any unit that leaves
one. -/
theorem log_eq_of_floor {x : ℚ} {m : ℕ} {e : ℤ} (hm : 0 < m) (hle : (m : ℚ) * 2 ^ e ≤ x)
    (hlt : x < (m + 1) * 2 ^ e) : Int.log 2 x = m.log2 + e := by
  have hx : 0 < x := lt_of_lt_of_le (by positivity) hle
  have hlower : (m.log2 : ℤ) + e ≤ Int.log 2 x := by
    rw [← Int.zpow_le_iff_le_log Nat.one_lt_two hx, Nat.cast_ofNat, zpow_add₀ two_ne_zero,
      zpow_natCast]
    have hpow : (2 ^ m.log2 : ℚ) ≤ m := by exact_mod_cast Nat.log2_self_le hm.ne'
    exact (mul_le_mul_of_nonneg_right hpow (by positivity)).trans hle
  have hupper : Int.log 2 x < (m.log2 + 1 : ℕ) + e := by
    rw [← Int.lt_zpow_iff_log_lt Nat.one_lt_two hx, Nat.cast_ofNat, zpow_add₀ two_ne_zero,
      zpow_natCast]
    have hpow : (m + 1 : ℚ) ≤ 2 ^ (m.log2 + 1) := by exact_mod_cast Nat.lt_log2_self
    exact hlt.trans_le (mul_le_mul_of_nonneg_right hpow (by positivity))
  omega

/-- The unit of a number that is given by a significand and an exponent. -/
theorem unitExponent_natCast_mul_zpow {m : ℕ} (hm : 0 < m) (e : ℤ) :
    unitExponent φ (m * 2 ^ e) = φ.targetExponent (Float.Model.totalExponent m e) := by
  have hlt : (m * 2 ^ e : ℚ) < (m + 1) * 2 ^ e :=
    mul_lt_mul_of_pos_right (lt_add_one _) (by positivity)
  rw [unitExponent, abs_of_pos (by positivity), log_eq_of_floor hm le_rfl hlt,
    Float.Model.totalExponent]
  congr 1
  ring

/-- The leading bits of a number show in which unit it has to be counted, unless bits are missing
that this unit asks for. -/
theorem targetExponent_eq {x : ℚ} {m : ℕ} {e : ℤ} (hx : 0 < x) (hfloor : ⌊x / 2 ^ e⌋ = m)
    (he : e ≤ unitExponent φ x) :
    φ.targetExponent (Float.Model.totalExponent m e) = unitExponent φ x := by
  have hmb := φ.hm
  have hle : (m : ℚ) * 2 ^ e ≤ x := by
    rw [← le_div_iff₀ (by positivity)]
    exact_mod_cast (Int.floor_eq_iff.mp hfloor).1
  have hlt : x < (m + 1) * 2 ^ e := by
    rw [← div_lt_iff₀ (by positivity)]
    exact_mod_cast (Int.floor_eq_iff.mp hfloor).2
  rw [unitExponent_eq_max, abs_of_pos hx] at *
  rw [Float.Model.Format.targetExponent, Float.Model.totalExponent]
  rcases Nat.eq_zero_or_pos m with rfl | hm
  -- nothing is left of the number, so that its unit is the least one
  · have hlog : Int.log 2 x < e :=
      (Int.lt_zpow_iff_log_lt Nat.one_lt_two hx).mp (by simpa using hlt)
    rw [Nat.log2_zero]
    rw [Float.Model.Format.mantissaBits] at *
    omega
  · rw [log_eq_of_floor hm hle hlt]
    congr 2
    ring

/-- Counted in its unit, a number has as many bits as the significand, or less if the unit is the
least one. -/
theorem div_unit_bounds {x : ℚ} (hx : 0 < x) :
    x / 2 ^ unitExponent φ x < 2 ^ φ.mantissaBits ∧
      (2 ^ φ.mantissaBitsWithoutImplicit ≤ x / 2 ^ unitExponent φ x ∨
        unitExponent φ x = φ.minExponent) := by
  have hlower : (2 : ℚ) ^ Int.log 2 x ≤ x := by
    exact_mod_cast Int.zpow_log_le_self Nat.one_lt_two hx
  have hupper : x < (2 : ℚ) ^ (Int.log 2 x + 1) := by
    exact_mod_cast Int.lt_zpow_succ_log_self Nat.one_lt_two x
  have hunit := unitExponent_eq_max φ x
  rw [abs_of_pos hx] at hunit
  set u := unitExponent φ x
  constructor
  · rw [div_lt_iff₀ (by positivity), ← zpow_natCast, ← zpow_add₀ two_ne_zero]
    exact hupper.trans_le (zpow_le_zpow_right₀ one_le_two (by omega))
  · rcases le_total (Int.log 2 x + 1 - φ.mantissaBits) φ.minExponent with hle | hle
    · exact Or.inr (by omega)
    · refine Or.inl ?_
      rw [le_div_iff₀ (by positivity), ← zpow_natCast, ← zpow_add₀ two_ne_zero]
      refine le_trans (zpow_le_zpow_right₀ one_le_two ?_) hlower
      rw [Float.Model.Format.mantissaBits] at hunit hle
      push_cast at hunit hle
      omega

/-- The rounded significand has one bit too much only if it is a power of two, so nothing is lost
when that bit is dropped. -/
theorem isCanonical_shiftToTargetExponent {r : ℕ} {u : ℤ} (hr : r ≤ 2 ^ φ.mantissaBits)
    (hu : φ.minExponent ≤ u) (hnormal : 2 ^ φ.mantissaBitsWithoutImplicit ≤ r ∨ u = φ.minExponent) :
    let result := shiftToTargetExponent φ r u .exact
    IsCanonical φ result.1.mantissa result.2 ∧
      (result.1.mantissa * 2 ^ result.2 : ℚ) = r * 2 ^ u := by
  have hmb := φ.hm
  rcases hr.lt_or_eq with hlt | rfl
  · have hshift : (φ.targetExponent (Float.Model.totalExponent r u) - u).toNat = 0 := by
      have hlog : r.log2 < φ.mantissaBits := by
        rcases Nat.eq_zero_or_pos r with rfl | hpos
        · rw [Nat.log2_zero, Float.Model.Format.mantissaBits]
          omega
        · exact (Nat.log2_lt hpos.ne').mpr hlt
      rw [Float.Model.Format.targetExponent, Float.Model.totalExponent]
      omega
    simp only [shiftToTargetExponent, shiftToExponent, hshift]
    refine ⟨⟨hlt, ?_, ?_⟩, ?_⟩
    · simpa using hu
    · rw [Nat.cast_zero, add_zero]
      exact hnormal
    · simp [ExtendedMantissa.ofMantissaAndAccuracy, HShiftRight.hShiftRight, Nat.repeat]
  · have hshift : (φ.targetExponent (Float.Model.totalExponent (2 ^ φ.mantissaBits) u) - u).toNat
        = 1 := by
      rw [Float.Model.Format.targetExponent, Float.Model.totalExponent, Nat.log2_two_pow]
      omega
    have hhalf : 2 ^ φ.mantissaBits / 2 = 2 ^ φ.mantissaBitsWithoutImplicit := by
      rw [two_pow_mantissaBits, Nat.mul_div_cancel_left _ Nat.two_pos]
    simp only [shiftToTargetExponent, shiftToExponent, hshift]
    have hdropped :
        (ExtendedMantissa.ofMantissaAndAccuracy (2 ^ φ.mantissaBits) .exact >>> 1).mantissa
          = 2 ^ φ.mantissaBitsWithoutImplicit := hhalf
    rw [hdropped]
    refine ⟨⟨?_, by omega, Or.inl le_rfl⟩, ?_⟩
    · exact Nat.pow_lt_pow_right Nat.one_lt_two (by rw [Float.Model.Format.mantissaBits]; omega)
    · rw [two_pow_mantissaBits, Nat.cast_one, zpow_add_one₀ two_ne_zero]
      push_cast
      ring

/-- **Dropping bits rounds once.** If no more bits are missing than the unit of the number allows,
then the result is the number rounded to its unit. -/
theorem roundWithAccuracy_eq {x : ℚ} {m : ℕ} {e : ℤ} {acc : Accuracy} (s : Sign) (hx : 0 < x)
    (hdescribes : Describes (.ofMantissaAndAccuracy m acc) (x / 2 ^ e))
    (he : e ≤ unitExponent φ x) :
    IsRounded φ (roundWithAccuracy φ s m e acc) ∧
      number? (roundWithAccuracy φ s m e acc) = some (s.apply 1 * rounded φ x) := by
  have hmantissa : (ExtendedMantissa.ofMantissaAndAccuracy m acc).mantissa = m := by
    rcases acc with _ | ⟨_ | _ | _⟩ <;> rfl
  have htarget := targetExponent_eq hx (hmantissa ▸ hdescribes.floor_eq) he
  obtain ⟨hlt, hnormal⟩ := div_unit_bounds (φ := φ) hx
  set u := unitExponent φ x with hu
  have hexponent : e + ((u - e).toNat : ℤ) = u := by omega
  -- the first shift arrives at the unit of the number
  set em := ExtendedMantissa.ofMantissaAndAccuracy m acc >>> (u - e).toNat with hem
  have hshifted : Describes em (x / 2 ^ u) := by
    have hpow : (2 : ℚ) ^ u = 2 ^ e * 2 ^ (u - e).toNat := by
      rw [← zpow_natCast, ← zpow_add₀ two_ne_zero, hexponent]
    rw [hpow, ← div_div]
    exact hdescribes.shiftRight _
  have hfirst : shiftToTargetExponent φ m e acc = (em, u) := by
    simp only [shiftToTargetExponent, shiftToExponent, htarget, hexponent, hem]
  have hnearest : (em.roundedMantissa : ℤ) = nearestInteger (x / 2 ^ u) :=
    hshifted.roundedMantissa_eq.symm
  have hrounded : rounded φ x = em.roundedMantissa * 2 ^ u := by
    rw [rounded, ← hu, ← hnearest, Int.cast_natCast]
  have hle : em.roundedMantissa ≤ 2 ^ φ.mantissaBits := by
    have h : nearestInteger (x / 2 ^ u) ≤ (2 ^ φ.mantissaBits : ℕ) :=
      Rational.nearestInteger_le (by exact_mod_cast hlt.le)
    rw [← hnearest] at h
    exact_mod_cast h
  have hge : 2 ^ φ.mantissaBitsWithoutImplicit ≤ em.roundedMantissa ∨ u = φ.minExponent := by
    refine hnormal.imp_left fun hge => ?_
    have h : ((2 ^ φ.mantissaBitsWithoutImplicit : ℕ) : ℤ) ≤ nearestInteger (x / 2 ^ u) :=
      Rational.le_nearestInteger (by exact_mod_cast hge)
    rw [← hnearest] at h
    exact_mod_cast h
  have hmin : φ.minExponent ≤ u := minExponent_le_unitExponent φ x
  obtain ⟨hcanonical, hvalue⟩ := isCanonical_shiftToTargetExponent hle hmin hge
  rw [roundWithAccuracy]
  simp only [hfirst]
  rw [hrounded, ← hvalue]
  split_ifs with hzero
  · exact ⟨trivial, by simp [number?, hzero]⟩
  · refine ⟨hcanonical, ?_⟩
    cases s <;> simp [number?, Sign.apply]

/-- The value of a rounded number, with its sign. -/
theorem value?_roundWithAccuracy (hφ : 0 < φ.exponentBias) {x : ℚ} {m : ℕ} {e : ℤ}
    {acc : Accuracy} (s : Sign) (hx : 0 < x)
    (hdescribes : Describes (.ofMantissaAndAccuracy m acc) (x / 2 ^ e))
    (he : e ≤ unitExponent φ x) :
    (ofUnpacked (roundWithAccuracy φ s m e acc) : Binary φ).value?
      = nearest? φ (s.apply 1 * x) := by
  obtain ⟨hrounded, hnumber⟩ := roundWithAccuracy_eq s hx hdescribes he
  rw [value?_ofUnpacked hφ hrounded hnumber, nearest?]
  have hsign : rounded φ (s.apply 1 * x) = s.apply 1 * rounded φ x := by
    cases s
    · simp [Sign.apply, rounded_neg]
    · simp [Sign.apply]
  rw [hsign]

/-- A number that is given by a significand and an exponent is rounded once, whether bits are added
or dropped. -/
theorem value?_round (hφ : 0 < φ.exponentBias) (s : Sign) {m : ℕ} (hm : 0 < m) (e : ℤ) :
    (ofUnpacked (UnpackedFloat.round φ s m e) : Binary φ).value?
      = nearest? φ (s.apply 1 * (m * 2 ^ e)) := by
  have hunit := unitExponent_natCast_mul_zpow (φ := φ) hm e
  set x : ℚ := m * 2 ^ e with hx
  set t := φ.targetExponent (Float.Model.totalExponent m e) with ht
  have hpositive : 0 < x := by positivity
  have hmantissa : x / 2 ^ (e - (e - t).toNat) = (m <<< (e - t).toNat : ℕ) := by
    rw [Nat.shiftLeft_eq, div_eq_iff (by positivity), hx, zpow_sub₀ two_ne_zero, zpow_natCast]
    push_cast
    field_simp
  rw [UnpackedFloat.round]
  simp only [decreaseExponent, ← ht]
  refine value?_roundWithAccuracy hφ s hpositive ?_ (by omega)
  rw [hmantissa]
  exact describes_exact _

theorem value?_normalize (hφ : 0 < φ.exponentBias) (n e : ℤ) (zeroSign : Sign) :
    (ofUnpacked (UnpackedFloat.normalize φ n e zeroSign) : Binary φ).value?
      = nearest? φ (n * 2 ^ e) := by
  rw [UnpackedFloat.normalize]
  split
  case h_1 h =>
    have hneg : n < 0 := compare_lt_iff_lt.mp h
    have hcast : ((-n).toNat : ℚ) = -n := by
      exact_mod_cast Int.toNat_of_nonneg (by omega : 0 ≤ -n)
    rw [value?_round hφ _ (by omega), hcast]
    simp [Sign.apply]
  case h_2 h =>
    obtain rfl : n = 0 := compare_eq_iff_eq.mp h
    have hzero : IsRounded φ (.zero zeroSign) := trivial
    rw [Int.cast_zero, zero_mul, nearest?_zero, value?_ofUnpacked hφ hzero rfl, abs_zero,
      if_pos (by positivity)]
  case h_3 h =>
    have hpos : 0 < n := compare_gt_iff_gt.mp h
    have hcast : (n.toNat : ℚ) = n := by
      exact_mod_cast Int.toNat_of_nonneg hpos.le
    rw [value?_round hφ _ (by omega), hcast]
    simp [Sign.apply]

end LinearSystems.Binary
