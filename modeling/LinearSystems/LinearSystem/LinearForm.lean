import LinearSystems.Scalar

/-!
# Linear forms in free parameters

While a system is solved, each unknown is a constant plus a linear combination of free
parameters. A `LinearForm` stores the terms whose coefficient does not count as zero, each
parameter at most once; a parameter without a term has the coefficient zero.

The order of the stored terms carries no meaning: `coefficient` does not see it, and the terms that
`addTerms` adds belong to different parameters.
-/

namespace LinearSystems

/-- What a term of a linear form is a multiple of. -/
inductive Parameter where
  /-- One. -/
  | constant
  /-- The free parameter of an unknown. -/
  | free (unknown : Nat)
  deriving DecidableEq, Repr

/-- A sparse linear combination of parameters. -/
structure LinearForm (K : Type) where
  terms : List (Parameter × K)

namespace LinearForm

variable {K : Type} [Scalar K]

/-- The constant form. -/
def constant (value : K) : LinearForm K :=
  ⟨if Scalar.isZero value then [] else [(.constant, value)]⟩

/-- The free parameter of an unknown. -/
def free (unknown : Nat) : LinearForm K :=
  ⟨[(.free unknown, Scalar.one)]⟩

/-- The coefficient of a parameter. -/
def coefficient (f : LinearForm K) (p : Parameter) : K :=
  (f.terms.lookup p).getD Scalar.zero

/-- The form without a term for a parameter. -/
def erase (f : LinearForm K) (p : Parameter) : LinearForm K :=
  ⟨f.terms.filter fun t => t.1 ≠ p⟩

/-- The form with the coefficient of a parameter replaced. A coefficient that counts as zero is
not stored. -/
def setCoefficient (f : LinearForm K) (p : Parameter) (value : K) : LinearForm K :=
  if Scalar.isZero value then f.erase p else ⟨(p, value) :: (f.erase p).terms⟩

omit [Scalar K] in
/-- The term of an erased parameter is gone. -/
theorem lookup_erase_self (f : LinearForm K) (p : Parameter) :
    (f.erase p).terms.lookup p = none := by
  rw [List.lookup_eq_none_iff]
  intro t ht
  have hne : t.1 ≠ p := by simpa using (List.mem_filter.1 ht).2
  simpa using hne.symm

omit [Scalar K] in
/-- The terms of the other parameters stay. -/
theorem lookup_erase_of_ne (f : LinearForm K) {p q : Parameter} (h : q ≠ p) :
    (f.erase p).terms.lookup q = f.terms.lookup q := by
  simp only [erase]
  induction f.terms with
  | nil => rfl
  | cons t ts ih =>
    by_cases ht : t.1 = p
    · have hq : (q == t.1) = false := by simpa [ht] using h
      rw [List.filter_cons_of_neg (by simpa using ht), ih, List.lookup_cons, hq]
    · rw [List.filter_cons_of_pos (by simpa using ht), List.lookup_cons, List.lookup_cons, ih]

theorem lookup_setCoefficient_self (f : LinearForm K) (p : Parameter) (value : K) :
    (f.setCoefficient p value).terms.lookup p
      = if Scalar.isZero value then none else some value := by
  unfold setCoefficient
  split
  · exact lookup_erase_self f p
  · simp

theorem lookup_setCoefficient_of_ne (f : LinearForm K) {p q : Parameter} (h : q ≠ p)
    (value : K) : (f.setCoefficient p value).terms.lookup q = f.terms.lookup q := by
  unfold setCoefficient
  split
  · exact lookup_erase_of_ne f h
  · have hq : (q == p) = false := by simpa using h
    rw [List.lookup_cons, hq, lookup_erase_of_ne f h]

theorem coefficient_setCoefficient_self (f : LinearForm K) (p : Parameter) (value : K) :
    (f.setCoefficient p value).coefficient p
      = if Scalar.isZero value then Scalar.zero else value := by
  rw [coefficient, lookup_setCoefficient_self]
  split <;> rfl

theorem coefficient_setCoefficient_of_ne (f : LinearForm K) {p q : Parameter} (h : q ≠ p)
    (value : K) : (f.setCoefficient p value).coefficient q = f.coefficient q := by
  rw [coefficient, lookup_setCoefficient_of_ne f h, coefficient]

/-- Add `factor` times a term. -/
def addTerm (factor : K) (f : LinearForm K) (term : Parameter × K) : LinearForm K :=
  f.setCoefficient term.1 (Scalar.addMul (f.coefficient term.1) term.2 factor)

/-- Add `factor` times each of the terms, in the order in which they are listed. -/
def addTerms (f : LinearForm K) (terms : List (Parameter × K)) (factor : K) : LinearForm K :=
  terms.foldl (addTerm factor) f

/-- The form `f + factor * g`, with the terms of `g` visited in the order of `visit`, which has to
list each of them once. -/
def addScaled (visit : LinearForm K → List (Parameter × K)) (f g : LinearForm K) (factor : K) :
    LinearForm K :=
  f.addTerms (visit g) factor

end LinearForm

end LinearSystems
