import LinearSystems.DenseVector

/-!
# Binary floating-point scalars

`Binary φ` is the set of **all** bit patterns of the interchange format `φ`, so the sign and the
payload of a NaN are part of an element. The arithmetic is that of Lean's logical model of
floating-point numbers, for any format: the exact result is rounded once to the nearest element,
a tie goes to the even significand, and an invalid operation gives the canonical quiet NaN.
No operation is fused with another.

Equality merges what differs only in representation: all NaNs are equal, and so are the two
zeros. The order compares equal elements as equal and any others by their bit patterns, the
negative ones in reverse. `hashWord` is the word that an element gives to a hasher.

The order is not asserted to be transitive.

`truncate` rounds a rational number **toward zero**, unlike the arithmetic of the type: a number
too close to zero becomes the positive zero, whatever its sign, and a number beyond the range the
infinity of its sign.

A `NamedField` is a field of floating-point numbers, named by any one of its elements. Its
operations do not depend on that element, but its identity does: two fields are the same if the
elements that name them are equal, and vectors over different fields are never equal.
-/

namespace LinearSystems

open Float.Model (UnpackedFloat)

/-- The widths of the exponent and of the significand of a floating-point format. -/
abbrev BinaryFormat := Float.Model.Format

/-- The format with 53 significant bits. -/
abbrev binary64 : BinaryFormat := Float.Model.Format.binary64

/-- The format with 24 significant bits. -/
abbrev binary32 : BinaryFormat := Float.Model.Format.binary32

/-- A floating-point number, given by its bit pattern. -/
structure Binary (φ : BinaryFormat) where
  bits : BitVec φ.numBits
  deriving DecidableEq

namespace Binary

variable {φ : BinaryFormat}

/-! ### Reading a bit pattern -/

/-- The sign bit. -/
def isNegative (x : Binary φ) : Bool :=
  x.bits.msb

/-- The bit pattern without the sign bit, as a number. It orders the elements of either sign by
their distance from zero. -/
def magnitude (x : Binary φ) : Nat :=
  x.bits.toNat % Nat.pow 2 (φ.numBits - 1)

/-- The magnitude of the two infinities: all bits of the exponent, and no other. -/
def infinityMagnitude (φ : BinaryFormat) : Nat :=
  (Nat.pow 2 φ.exponentBits - 1) * Nat.pow 2 φ.mantissaBitsWithoutImplicit

/-- Whether the pattern stands for no number. -/
def isNaN (x : Binary φ) : Bool :=
  decide (infinityMagnitude φ < x.magnitude)

/-- Whether the pattern is one of the two zeros. -/
def isZero (x : Binary φ) : Bool :=
  x.magnitude == 0

/-- The number that a bit pattern stands for. -/
def unpack (x : Binary φ) : UnpackedFloat :=
  UnpackedFloat.unpack φ x.bits

/-- The bit pattern of a number that is already rounded to the format. -/
def ofUnpacked (u : UnpackedFloat) : Binary φ :=
  ⟨UnpackedFloat.pack φ u⟩

/-! ### Arithmetic -/

/-- The positive zero: no bit is set. -/
def zero : Binary φ :=
  ⟨BitVec.ofNat _ 0⟩

/-- One: the exponent field holds the bias and the fraction is empty. -/
def one : Binary φ :=
  ⟨BitVec.ofNat _ (φ.exponentBias * Nat.pow 2 φ.mantissaBitsWithoutImplicit)⟩

/-- The element nearest to an integer. -/
def ofInt (n : Int) : Binary φ :=
  ofUnpacked (UnpackedFloat.ofInt φ n)

/-- The element with the other sign bit. -/
def neg (x : Binary φ) : Binary φ :=
  ⟨x.bits.xor (BitVec.intMin _)⟩

def add (x y : Binary φ) : Binary φ :=
  ofUnpacked (UnpackedFloat.add φ x.unpack y.unpack)

def sub (x y : Binary φ) : Binary φ :=
  ofUnpacked (UnpackedFloat.sub φ x.unpack y.unpack)

def mul (x y : Binary φ) : Binary φ :=
  ofUnpacked (UnpackedFloat.mul φ x.unpack y.unpack)

def div (x y : Binary φ) : Binary φ :=
  ofUnpacked (UnpackedFloat.div φ x.unpack y.unpack)

def sqrt (x : Binary φ) : Binary φ :=
  ofUnpacked (UnpackedFloat.sqrt φ x.unpack)

/-! ### Equality, order and hashing -/

/-- Equality up to representation: all NaNs are equal, and so are the two zeros. -/
def equal (x y : Binary φ) : Bool :=
  if x.isNaN || y.isNaN then x.isNaN && y.isNaN
  else decide (x.bits = y.bits) || (x.isZero && y.isZero)

/-- The place of a bit pattern in the order of all patterns: the negative ones come first, from
the largest magnitude down. -/
def rank (x : Binary φ) : Int :=
  if x.isNegative then -1 - (x.magnitude : Int) else (x.magnitude : Int)

/-- The comparison of elements: equal ones are equal, any others compare by bit pattern. -/
def order (x y : Binary φ) : Ordering :=
  if x.equal y then .eq
  else if x.rank < y.rank then .lt
  else if y.rank < x.rank then .gt
  else .eq

/-- The canonical quiet NaN. -/
def nan : Binary φ :=
  ofUnpacked .notANumber

/-- The word that an element gives to a hasher: one for all NaNs, zero for both zeros, and the
bit pattern for any other element. -/
def hashWord (x : Binary φ) : Nat :=
  if x.isNaN then (nan : Binary φ).bits.toNat
  else if x.isZero then 0
  else x.bits.toNat

instance : Scalar (Binary φ) where
  zero := zero
  one := one
  add := add
  sub := sub
  mul := mul
  neg := neg
  div := div
  inv := div one
  ofInt := ofInt
  isZero := isZero
  isOne x := decide (x.bits = (one : Binary φ).bits)
  equal := equal
  canDivideBy _ := true
  sqrt? x := if x.sqrt.isNaN then none else some x.sqrt
  exponentLimit := none

instance : ScalarOrder (Binary φ) where
  compare := order
  hashesAlike x y := x.hashWord == y.hashWord

/-! ### From rationals to floating-point numbers -/

/-- The exponent `k` with `2 ^ k ≤ num / den < 2 ^ (k + 1)`, for positive `num` and `den`. -/
def floorLogTwo (num den : Nat) : Int :=
  let k : Int := num.log2 - den.log2
  if den * Nat.pow 2 k.toNat ≤ num * Nat.pow 2 (-k).toNat then k else k - 1

/-- The rational number rounded toward zero. -/
def truncate (φ : BinaryFormat) (q : Rat) : Binary φ :=
  let num := q.num.natAbs
  let e := φ.targetExponent (floorLogTwo num q.den + 1)
  let m := num * Nat.pow 2 (-e).toNat / (q.den * Nat.pow 2 e.toNat)
  if h : 0 < m then
    ofUnpacked (.finite (if q.num < 0 then .negative else .positive) m e h)
  else zero

/-! ### Named fields -/

/-- A field of floating-point numbers, named by an element. -/
structure NamedField (φ : BinaryFormat) where
  representative : Binary φ

namespace NamedField

/-- The field named by zero. -/
def standard : NamedField φ :=
  ⟨zero⟩

/-- Whether two fields are the same. -/
def same (f g : NamedField φ) : Bool :=
  f.representative.equal g.representative

/-- Whether a vector over one field equals a vector over another. -/
def vectorsEqual (f g : NamedField φ) (v w : DenseVector (Binary φ)) : Bool :=
  v.equal w && f.same g

end NamedField

end Binary

end LinearSystems
