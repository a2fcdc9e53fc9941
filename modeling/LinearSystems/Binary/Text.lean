import LinearSystems.Binary.Basic
import LinearSystems.Decimal

/-!
# Texts of floating-point numbers

Without a precision a number is written with the fewest digits that read back as the same element
of its format, and of those texts the one nearest to it. With a precision its exact value is
rounded once, halves to the even digit. The positional text never has an exponent; the scientific
one always has. Both zeros keep their sign, and a NaN has none.

`text` and `exponentText` are defined for every precision. `display` and `format` grant a precision
up to `layoutLimit`, whatever the element; in scientific notation the digit before the point counts
as well (`scientific`).
-/

namespace LinearSystems.Binary

open Float.Model (UnpackedFloat)

variable {φ : BinaryFormat}

/-- The reals that round to the positive number `m * 2 ^ e` of the format `φ`. They reach half
way to the neighbors on both sides. Below a power of two the neighbor is closer, except where the
exponent is the least. The ends round to the even significand. -/
def roundingInterval (φ : BinaryFormat) (m : Nat) (e : Int) : Decimal.Interval :=
  let scale := Nat.pow 2 (e - 2).toNat
  let narrow :=
    decide (m = Nat.pow 2 φ.mantissaBitsWithoutImplicit) && decide (φ.minExponent < e)
  { low := (4 * m - if narrow then 1 else 2) * scale
    center := 4 * m * scale
    high := (4 * m + 2) * scale
    den := Nat.pow 2 (2 - e).toNat
    closed := m % 2 == 0 }

/-- The nearest integer to `m * 2 ^ e * 10 ^ k`, halves to even. -/
def scaledRound (m : Nat) (e k : Int) : Nat :=
  Decimal.roundHalfEven (m * Nat.pow 2 e.toNat * Nat.pow 10 k.toNat)
    (Nat.pow 2 (-e).toNat * Nat.pow 10 (-k).toNat)

/-- The positional text of `m * 2 ^ e`. The number has at most `-e` digits behind the point, so
only zeros can follow them. -/
def positionalText (φ : BinaryFormat) (precision : Option Nat) (m : Nat) (e : Int) : String :=
  match precision with
  | some places =>
    let exact := min places (-e).toNat
    Decimal.fixedPadded (scaledRound m e exact) exact (places - exact)
  | none =>
    let (c, p) := (roundingInterval φ m e).shortest
    Decimal.positional c p

/-- The scientific text of `m * 2 ^ e`. A rounding that carries into a new leading digit moves
the exponent. -/
def scientificText (φ : BinaryFormat) (precision : Option Nat) (m : Nat) (e : Int) : String :=
  match precision with
  | some places =>
    let lead := Decimal.floorLog (m * Nat.pow 2 e.toNat) (Nat.pow 2 (-e).toNat)
    let c := scaledRound m e (places - lead)
    if c = Nat.pow 10 (places + 1) then Decimal.scientific (c / 10) (lead - places + 1)
    else Decimal.scientific c (lead - places)
  | none =>
    let (c, p) := (roundingInterval φ m e).shortest
    Decimal.scientific c p

/-- The minus sign of the negative numbers. -/
def signText : UnpackedFloat.Sign → String
  | .negative => "-"
  | .positive => ""

/-- The text of an element, with `finiteText` for the finite numbers other than zero and
`zeroText` for the digits of zero. -/
def textWith (zeroText : String) (finiteText : Nat → Int → String) (x : Binary φ) : String :=
  match x.unpack with
  | .notANumber => "NaN"
  | .infinity s => signText s ++ "inf"
  | .zero s => signText s ++ zeroText
  | .finite s m e _ => signText s ++ finiteText m e

/-- The digits of zero with the given precision. -/
def zeroDigits (precision : Option Nat) : String :=
  Decimal.fixed 0 (precision.getD 0)

/-- The element in positional notation. -/
def text (precision : Option Nat) (x : Binary φ) : String :=
  x.textWith (zeroDigits precision) (positionalText φ precision)

/-- The element with a decimal exponent. -/
def exponentText (precision : Option Nat) (x : Binary φ) : String :=
  x.textWith (zeroDigits precision ++ "e0") (scientificText φ precision)

/-- The element in positional notation, within the limits of a layout. -/
def positional (precision : Option Nat) (x : Binary φ) : Except Fault String := do
  checkPrecision precision
  return x.text precision

/-- The element with a decimal exponent, within the limits of a layout. -/
def scientific (precision : Option Nat) (x : Binary φ) : Except Fault String := do
  checkPrecision (precision.map (· + 1))
  return x.exponentText precision

instance : ScalarText (Binary φ) where
  display request := positional request.precision
  format opts := positional opts.precision

end LinearSystems.Binary
