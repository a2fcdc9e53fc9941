import LinearSystems.Fault
import LinearSystems.Text.Options

/-!
# Scalars

The entries of vectors and matrices. A `Scalar` type has the operations of a field and nothing
else: **no law is part of the class**. Exact rationals satisfy the field axioms, floating-point
numbers do not, and both are scalars. Whatever is said about every scalar type therefore rests on
the tests that the algorithms make and on the values that they write, not on algebra.

Division is total here. `divide` and `inverse` refuse a divisor that the type cannot divide by;
`pivotQuotient` and `pivotInverse` refuse, for every type, a divisor that looks like zero.

`ScalarOrder` holds the order by which elements are compared and sorted, which need not have
anything to do with arithmetic, and the question whether two elements hash alike. Nothing here
asserts that the comparison is transitive. `insertionSort` is therefore written out, and not left
to a sorting routine whose result would depend on the pairs it happens to compare: each element is
carried leftwards past the larger ones, and stops at the first that is not larger. Whatever the
comparison is, the result is a rearrangement (`insertionSort_perm`).
-/

namespace LinearSystems

/-- The operations of a field, without its laws. -/
class Scalar (K : Type) where
  zero : K
  one : K
  add : K → K → K
  sub : K → K → K
  mul : K → K → K
  neg : K → K
  div : K → K → K
  /-- The reciprocal. -/
  inv : K → K
  /-- The multiple of one by an integer. -/
  ofInt : Int → K
  /-- Whether an element counts as zero. Several elements may. -/
  isZero : K → Bool
  /-- Whether an element counts as one. -/
  isOne : K → Bool
  /-- Whether two elements count as the same. -/
  equal : K → K → Bool
  /-- Whether the type can divide by an element. -/
  canDivideBy : K → Bool
  /-- A square root, if the type has one. -/
  sqrt? : K → Option K
  /-- The largest exponent of a power, if there is one. -/
  exponentLimit : Option Nat

/-- How an element, and the field that it belongs to, are written. A text can fail only for a
precision beyond `layoutLimit`. -/
class ScalarText (K : Type) where
  /-- The text of an element by itself. -/
  display : TextRequest → K → Except Fault String
  /-- The text of an element in a given style. -/
  format : PrintOptions → K → Except Fault String
  /-- The text of the field itself; the fields of this library stay silent. -/
  fieldText : String := ""

namespace Scalar

variable {K : Type} [Scalar K]

/-- The sum `a + b * c`, with both operations rounded if the type rounds. -/
def addMul (a b c : K) : K :=
  add a (mul b c)

/-- The difference `a - b * c`, with both operations rounded if the type rounds. -/
def subMul (a b c : K) : K :=
  sub a (mul b c)

/-- The quotient, for a divisor that the type can divide by. -/
def divide (a b : K) : Except Fault K :=
  if canDivideBy b then .ok (div a b) else .error (.breach .zeroDivisor)

/-- The reciprocal, for an element that the type can divide by. -/
def inverse (a : K) : Except Fault K :=
  if canDivideBy a then .ok (inv a) else .error (.breach .zeroDivisor)

/-- The quotient by an element that does not count as zero. -/
def pivotQuotient (a pivot : K) : Except Fault K :=
  if isZero pivot then .error (.breach .zeroDivisor) else .ok (div a pivot)

/-- The reciprocal of an element that does not count as zero. -/
def pivotInverse (pivot : K) : Except Fault K :=
  if isZero pivot then .error (.breach .zeroDivisor) else .ok (inv pivot)

theorem pivotQuotient_of_nonzero {a pivot : K} (h : isZero pivot = false) :
    pivotQuotient a pivot = .ok (div a pivot) := by
  simp [pivotQuotient, h]

theorem pivotInverse_of_nonzero {pivot : K} (h : isZero pivot = false) :
    pivotInverse pivot = .ok (inv pivot) := by
  simp [pivotInverse, h]

/-- The product `acc * base ^ e` by repeated squaring, from the low binary digit of `e`
upwards. The base is squared only if digits are left. -/
def powerLoop (acc base : K) (e : Nat) : K :=
  let acc := if e % 2 = 1 then mul acc base else acc
  if h : e / 2 = 0 then acc else powerLoop acc (mul base base) (e / 2)
termination_by e
decreasing_by omega

/-- The power `a ^ e`, for an exponent within the limit of the type. -/
def power (a : K) (e : Nat) : Except Fault K :=
  match (exponentLimit K : Option Nat) with
  | none => .ok (powerLoop one a e)
  | some limit =>
    if e ≤ limit then .ok (powerLoop one a e) else .error (.breach (.exponentTooLarge e))

/-- The integer that `pick` chooses among those with `lo ≤ n < hi`, counted round and round. -/
def sample (lo hi : Int) (pick : Nat) : Except Fault K :=
  if lo < hi then .ok (ofInt (lo + (pick : Int) % (hi - lo)))
  else .error (.breach .emptyRange)

end Scalar

/-! ### Order and hashing of elements -/

/-- The order of the elements, and whether two of them hash alike. -/
class ScalarOrder (K : Type) where
  compare : K → K → Ordering
  hashesAlike : K → K → Bool

namespace ScalarOrder

variable {K : Type} [ScalarOrder K]

/-- The later of two elements; of two equal ones the second. -/
def maximum (a b : K) : K :=
  if compare b a = .lt then a else b

/-- The earlier of two elements; of two equal ones the first. -/
def minimum (a b : K) : K :=
  if compare b a = .lt then b else a

/-- Carry `x` leftwards into a list that is given from right to left. -/
def insertFromRight (x : K) : List K → List K
  | [] => [x]
  | y :: left => if compare x y = .lt then y :: insertFromRight x left else x :: y :: left

/-- Sort a list, keeping equal elements in their order. -/
def insertionSort (xs : List K) : List K :=
  (xs.foldl (fun sorted x => insertFromRight x sorted) []).reverse

theorem insertFromRight_perm (x : K) (ys : List K) :
    (insertFromRight x ys).Perm (x :: ys) := by
  induction ys with
  | nil => exact List.Perm.refl _
  | cons y left ih =>
    simp only [insertFromRight]
    split
    · exact (ih.cons y).trans (List.Perm.swap x y left)
    · exact List.Perm.refl _

/-- Sorting keeps every element as often as it occurs. -/
theorem insertionSort_perm (xs : List K) : (insertionSort xs).Perm xs := by
  have fold (xs : List K) : ∀ sorted : List K,
      (xs.foldl (fun sorted x => insertFromRight x sorted) sorted).Perm (xs ++ sorted) := by
    induction xs with
    | nil => exact fun sorted => List.Perm.refl _
    | cons x xs ih =>
      intro sorted
      refine (ih (insertFromRight x sorted)).trans ?_
      refine ((insertFromRight_perm x sorted).append_left xs).trans ?_
      exact List.perm_middle
  refine (List.reverse_perm _).trans ?_
  simpa using fold xs []

end ScalarOrder

end LinearSystems
