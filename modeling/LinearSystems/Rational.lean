import LinearSystems.Decimal
import LinearSystems.Scalar

/-!
# Rational scalars

Exact fractions in lowest terms with a positive denominator. All operations are exact, only zero
counts as zero, and there is no reciprocal of zero. A square root exists if numerator and
denominator are perfect squares, which for a fraction in lowest terms is the same as the number
being the square of a fraction.

A whole number is written as an integer. Any other fraction is written `p/q`, or in LaTeX as
`\frac` with the sign in front. The precision of a request does not concern exact numbers.
-/

namespace LinearSystems.Rational

/-- The fraction `num / den`, in lowest terms. -/
def ofPair (num den : Int) : Except Fault Rat :=
  if den = 0 then .error (.breach .zeroDivisor) else .ok (Rat.divInt num den)

/-- Whether the fraction is a whole number. -/
def isInteger (q : Rat) : Bool :=
  q.den == 1

/-- Whether the fraction is below zero. -/
def isNegative (q : Rat) : Bool :=
  decide (q.num < 0)

/-- The magnitude of the fraction. -/
def magnitude (q : Rat) : Rat :=
  if isNegative q then Rat.neg q else q

/-- The order of the fractions, by cross-multiplication. -/
def order (a b : Rat) : Ordering :=
  if Rat.blt a b then .lt else if Rat.blt b a then .gt else .eq

/-- The non-negative root of the square of a fraction. -/
def sqrt? (q : Rat) : Option Rat :=
  let p := Nat.sqrt q.num.toNat
  let r := Nat.sqrt q.den
  if isNegative q then none
  else if p * p = q.num.toNat ∧ r * r = q.den then some (Rat.divInt p r)
  else none

instance : Scalar Rat where
  zero := Rat.ofInt 0
  one := Rat.ofInt 1
  add := Rat.add
  sub := Rat.sub
  mul := Rat.mul
  neg := Rat.neg
  div := Rat.div
  inv := Rat.inv
  ofInt := Rat.ofInt
  isZero q := q.num == 0
  isOne q := q.num == 1 && q.den == 1
  equal a b := a.num == b.num && a.den == b.den
  canDivideBy q := q.num != 0
  sqrt? := sqrt?
  exponentLimit := some 4294967295

instance : ScalarOrder Rat where
  compare := order
  hashesAlike a b := a.num == b.num && a.den == b.den

/-! ### Texts -/

/-- The fraction on one line. -/
def text (q : Rat) : String :=
  if isInteger q then Decimal.integer q.num
  else Decimal.integer q.num ++ "/" ++ q.den.repr

/-- The fraction in the notation of LaTeX. -/
def latexText (q : Rat) : String :=
  if isInteger q then Decimal.integer q.num
  else
    (if isNegative q then "-" else "") ++ "\\frac\x7b" ++ q.num.natAbs.repr ++ "\x7d\x7b"
      ++ q.den.repr ++ "\x7d"

instance : ScalarText Rat where
  display _ q := .ok (text q)
  format opts q := .ok (if opts.isLatex then latexText q else text q)

end LinearSystems.Rational
