import LinearSystems.Proofs.Rational.Products
import Mathlib.Data.Rat.Sqrt
import Mathlib.NumberTheory.Real.Irrational

/-!
# Square roots of fractions and lengths of rational vectors

The square root of a fraction is looked for in its numerator and in its denominator, each by
itself. That finds a root whenever there is one, and this is where the lowest terms come in: the
square of a fraction in lowest terms is in lowest terms as it stands, so its numerator and its
denominator are the squares of those of the root. With a common factor left in place the search
would miss the root of `8 / 2`.

The square of the length of a vector is a sum of squares, which is never negative. So there is no
length among the fractions only if the length is irrational.
-/

namespace LinearSystems

namespace Rational

theorem isNegative_iff {a : ℚ} : isNegative a = true ↔ a < 0 := by
  rw [isNegative, decide_eq_true_eq, Rat.num_neg]

/-- **Soundness.** The root is not negative, and its square is the given fraction. -/
theorem of_sqrt?_eq_some {a r : ℚ} (h : sqrt? a = some r) : 0 ≤ r ∧ r * r = a := by
  dsimp only [sqrt?] at h
  split_ifs at h with hneg hsquares
  obtain ⟨hnum, hden⟩ := hsquares
  have hnonneg : 0 ≤ a.num := by
    rw [isNegative_iff, not_lt] at hneg
    exact Rat.num_nonneg.mpr hneg
  rw [Option.some.injEq] at h
  subst h
  rw [Rat.divInt_eq_div]
  refine ⟨by positivity, ?_⟩
  calc ((a.num.toNat.sqrt : ℤ) : ℚ) / ((a.den.sqrt : ℤ) : ℚ) *
          (((a.num.toNat.sqrt : ℤ) : ℚ) / ((a.den.sqrt : ℤ) : ℚ))
      = ((a.num.toNat.sqrt * a.num.toNat.sqrt : ℕ) : ℚ) / ((a.den.sqrt * a.den.sqrt : ℕ) : ℚ) := by
        push_cast
        rw [div_mul_div_comm]
    _ = (a.num : ℚ) / (a.den : ℚ) := by
        rw [hnum, hden]
        congr 1
        exact_mod_cast Int.toNat_of_nonneg hnonneg
    _ = a := Rat.num_div_den a

/-- **Completeness.** The square of a fraction has a root, which is the one that is not negative:
numerator and denominator of a square are squares. -/
theorem sqrt?_mul_self {r : ℚ} (hr : 0 ≤ r) : sqrt? (r * r) = some r := by
  have hpositive : ¬ isNegative (r * r) = true := by
    rw [isNegative_iff, not_lt]
    exact mul_self_nonneg r
  obtain ⟨p, hp⟩ := Int.eq_ofNat_of_zero_le (Rat.num_nonneg.mpr hr)
  have hnum : (r * r).num.toNat = p * p := by
    rw [Rat.mul_self_num, hp]
    exact_mod_cast Int.toNat_natCast (p * p)
  have hden : (r * r).den = r.den * r.den := Rat.mul_self_den r
  unfold sqrt?
  rw [if_neg hpositive, hnum, hden, Nat.sqrt_eq, Nat.sqrt_eq, if_pos ⟨rfl, rfl⟩]
  refine congrArg some ?_
  rw [← hp]
  exact Rat.num_divInt_den r

theorem sqrt?_eq_some_iff {a r : ℚ} : Scalar.sqrt? a = some r ↔ 0 ≤ r ∧ r * r = a := by
  constructor
  · exact of_sqrt?_eq_some
  · rintro ⟨hr, rfl⟩
    exact sqrt?_mul_self hr

theorem sqrt?_eq_none_iff {a : ℚ} : Scalar.sqrt? a = none ↔ ∀ s : ℚ, s * s ≠ a := by
  rw [Option.eq_none_iff_forall_ne_some]
  constructor
  · intro h s hs
    exact h |s| (sqrt?_eq_some_iff.mpr ⟨abs_nonneg s, by rw [abs_mul_abs_self, hs]⟩)
  · intro h r hr
    exact h r (sqrt?_eq_some_iff.mp hr).2

end Rational

namespace DenseVector

/-- The sum of the squares, of which a length is the root. -/
theorem normSquared_eq_sum (v : DenseVector ℚ) :
    v.normSquared = ∑ i ∈ Finset.range v.dim, v.entry i ^ 2 := by
  conv_lhs => rw [← tabulate_entry v]
  simp only [normSquared, tabulate, sumOfProducts_eq_sum, sq]

/-- A root of the sum of the squares among the fractions is the length of the vector. -/
theorem mul_self_eq_normSquared_iff {v : DenseVector ℚ} {r : ℚ} :
    0 ≤ r ∧ r * r = v.normSquared ↔
      (r : ℝ) = √(∑ i ∈ Finset.range v.dim, (v.entry i : ℝ) ^ 2) := by
  have hcast : ((v.normSquared : ℚ) : ℝ) = ∑ i ∈ Finset.range v.dim, (v.entry i : ℝ) ^ 2 := by
    rw [normSquared_eq_sum]
    push_cast
    rfl
  have hnonneg : (0 : ℝ) ≤ (v.normSquared : ℝ) := by
    rw [hcast]
    exact Finset.sum_nonneg fun i _ => sq_nonneg _
  rw [← hcast]
  constructor
  · rintro ⟨hr, hsq⟩
    rw [← hsq]
    push_cast
    exact (Real.sqrt_mul_self (by exact_mod_cast hr)).symm
  · intro h
    have hr : (0 : ℝ) ≤ (r : ℝ) := h ▸ Real.sqrt_nonneg _
    have hsq : (r : ℝ) * (r : ℝ) = (v.normSquared : ℝ) := by
      rw [h, Real.mul_self_sqrt hnonneg]
    exact ⟨by exact_mod_cast hr, by exact_mod_cast hsq⟩

end DenseVector

/-- **Roots are found exactly where they exist.** A fraction has the root `r` exactly if `r` is not
negative and its square is the fraction, and it has no root exactly if it is the square of no
fraction. So the length of a vector is `r` exactly if `r` is not negative and its square is that of
the length, which is to say, exactly if the real length of the vector is `r`; and there is none
exactly if the real length is irrational. -/
theorem roots_and_lengths :
    (∀ a r : ℚ, Scalar.sqrt? a = some r ↔ 0 ≤ r ∧ r * r = a) ∧
      (∀ a : ℚ, Scalar.sqrt? a = none ↔ ∀ s : ℚ, s * s ≠ a) ∧
      ∀ v : DenseVector ℚ,
        (∀ r : ℚ, v.norm? = some r ↔ 0 ≤ r ∧ r * r = v.normSquared) ∧
        (∀ r : ℚ, v.norm? = some r ↔
          (r : ℝ) = √(∑ i ∈ Finset.range v.dim, (v.entry i : ℝ) ^ 2)) ∧
        (v.norm? = none ↔ Irrational √(∑ i ∈ Finset.range v.dim, (v.entry i : ℝ) ^ 2)) := by
  refine ⟨fun a r => Rational.sqrt?_eq_some_iff, fun a => Rational.sqrt?_eq_none_iff, fun v => ?_⟩
  have hlength (r : ℚ) : v.norm? = some r ↔ 0 ≤ r ∧ r * r = v.normSquared :=
    Rational.sqrt?_eq_some_iff
  have hreal (r : ℚ) : v.norm? = some r ↔
      (r : ℝ) = √(∑ i ∈ Finset.range v.dim, (v.entry i : ℝ) ^ 2) :=
    (hlength r).trans DenseVector.mul_self_eq_normSquared_iff
  refine ⟨hlength, hreal, ?_⟩
  rw [Option.eq_none_iff_forall_ne_some]
  exact ⟨fun h ⟨r, hr⟩ => h r ((hreal r).mpr hr), fun h r hr => h ⟨r, (hreal r).mp hr⟩⟩

end LinearSystems
