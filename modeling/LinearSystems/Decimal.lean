/-!
# Decimal texts of exact numbers

Numbers are written from exact integers, so no text depends on a rounding that the program did
not ask for:

* `integer` writes an integer;
* `fixed n places` writes `n / 10 ^ places` with exactly `places` digits behind the point, and
  `fixedPadded` adds zeros to them;
* `positional c e` writes `c * 10 ^ e` without an exponent;
* `scientific c e` writes `c * 10 ^ e` with one digit before the point and a decimal exponent.

`roundHalfEven` is the one rounding of quotients that the texts use. It moves a quotient by at
most half a unit (`roundHalfEven_near`) and an exact one not at all. `floorLog` finds the place of
the leading digit.

A number that stands for a whole interval of reals, such as a rounded one, can be written by any
decimal of that interval. `Interval.shortest` chooses one with the fewest digits and, of those,
one nearest to the number; of two equally near ones it takes the larger. The search walks from
coarse to fine decimal grids. On a grid only the two neighbours of the number have to be tried: an
interval around the number that holds any point of the grid holds one of these two. All
comparisons are between natural numbers.
-/

namespace LinearSystems.Decimal

/-- The text of an integer, with a minus sign for the negative ones. -/
def integer (n : Int) : String :=
  if n < 0 then "-" ++ n.natAbs.repr else n.natAbs.repr

/-- The number of decimal digits of a natural number; zero has one digit. -/
def digitCount (n : Nat) : Nat :=
  (Nat.toDigits 10 n).length

/-- The integer nearest to `num / den`; of two equally near ones the even one. -/
def roundHalfEven (num den : Nat) : Nat :=
  let q := num / den
  match compare (2 * (num % den)) den with
  | .lt => q
  | .gt => q + 1
  | .eq => q + q % 2

/-- An exact quotient is not changed by rounding. -/
theorem roundHalfEven_mul_right (q : Nat) {den : Nat} (hden : 0 < den) :
    roundHalfEven (q * den) den = q := by
  simp [roundHalfEven, Nat.mul_div_cancel _ hden, Nat.compare_eq_lt.2 hden]

/-- Rounding moves a quotient by at most half a unit. -/
theorem roundHalfEven_near (num : Nat) {den : Nat} (hden : 0 < den) :
    2 * num ≤ 2 * (roundHalfEven num den * den) + den
      ∧ 2 * (roundHalfEven num den * den) ≤ 2 * num + den := by
  have hdiv : num / den * den + num % den = num := by
    rw [Nat.mul_comm]; exact Nat.div_add_mod num den
  have hmod : num % den < den := Nat.mod_lt _ hden
  simp only [roundHalfEven]
  split
  · next h =>
    rw [Nat.compare_eq_lt] at h
    omega
  · next h =>
    rw [Nat.compare_eq_gt] at h
    simp only [Nat.succ_mul]
    omega
  · next h =>
    rw [Nat.compare_eq_eq] at h
    rcases Nat.mod_two_eq_zero_or_one (num / den) with hp | hp
    · simp only [hp, Nat.add_zero]; omega
    · simp only [hp, Nat.succ_mul]; omega

/-- The exponent `k` of the leading digit of the positive number `num / den`, that is, the `k`
with `10 ^ k ≤ num / den < 10 ^ (k + 1)`. -/
def floorLog (num den : Nat) : Int :=
  if den ≤ num then (digitCount (num / den) : Int) - 1
  else -(digitCount ((den - 1) / num) : Int)

/-- Digits with a point before the last `places` of them, and a digit before the point. Without
places there is no point. -/
def placePoint (places : Nat) (digits : List Char) : String :=
  if places = 0 then String.ofList digits
  else
    let padded := List.replicate (places + 1 - digits.length) '0' ++ digits
    let whole := padded.length - places
    String.ofList (padded.take whole ++ '.' :: padded.drop whole)

/-- The quotient `n / 10 ^ places`, with `places` digits behind the point. -/
def fixed (n places : Nat) : String :=
  placePoint places (Nat.toDigits 10 n)

/-- The quotient `n / 10 ^ places` with `zeros` more digits behind the point, all of them zero. -/
def fixedPadded (n places zeros : Nat) : String :=
  placePoint (places + zeros) (Nat.toDigits 10 n ++ List.replicate zeros '0')

@[simp] theorem fixedPadded_zero (n places : Nat) : fixedPadded n places 0 = fixed n places := by
  simp [fixedPadded, fixed]

/-- The number `c * 10 ^ e` without an exponent. -/
def positional (c : Nat) (e : Int) : String :=
  if 0 ≤ e then (c * Nat.pow 10 e.toNat).repr else fixed c (-e).toNat

/-- The number `c * 10 ^ e` with one digit before the point: the digits of `c`, all of them
shown, and the exponent of the leading one. -/
def scientific (c : Nat) (e : Int) : String :=
  let digits := Nat.toDigits 10 c
  let fraction := digits.drop 1
  let point := if fraction.isEmpty then [] else ['.']
  String.ofList (digits.take 1 ++ point ++ fraction) ++ "e" ++ integer (e + fraction.length)

/-! ### The shortest decimal inside an interval -/

/-- A positive number together with the interval of reals that it stands for. The number is
`center / den`, the ends are `low / den` and `high / den`. -/
structure Interval where
  low : Nat
  center : Nat
  high : Nat
  den : Nat
  /-- Whether the ends belong to the interval. -/
  closed : Bool

namespace Interval

/-- The numerators of the interval, measured in units of `10 ^ p`, and their denominator. -/
def onGrid (v : Interval) (p : Int) : Interval :=
  let up := Nat.pow 10 (-p).toNat
  { v with low := v.low * up, center := v.center * up, high := v.high * up,
           den := v.den * Nat.pow 10 p.toNat }

/-- Whether the interval contains the natural number `c`. -/
def contains (v : Interval) (c : Nat) : Bool :=
  let x := c * v.den
  if v.closed then decide (v.low ≤ x) && decide (x ≤ v.high)
  else decide (v.low < x) && decide (x < v.high)

/-- The natural number nearest to the center among its two neighbours, if the interval contains
one of them; the larger one on a tie. -/
def nearest? (v : Interval) : Option Nat :=
  let below := v.center / v.den
  let above := below + 1
  match v.contains below, v.contains above with
  | true, true => if 2 * (v.center % v.den) < v.den then some below else some above
  | true, false => some below
  | false, true => some above
  | false, false => none

/-- Try the grids `10 ^ p`, `10 ^ (p - 1)`, and so on. The last grid is taken as it is. -/
def search (v : Interval) (p : Int) : Nat → Nat × Int
  | 0 => ((v.onGrid p).center / (v.onGrid p).den, p)
  | n + 1 =>
    match (v.onGrid p).nearest? with
    | some c => (c, p)
    | none => v.search (p - 1) n

/-- Drop the trailing zeros of the digits `c` of `c * 10 ^ p`. -/
def dropZeros (c : Nat) (p : Int) : Nat × Int :=
  if h : 0 < c ∧ c % 10 = 0 then dropZeros (c / 10) (p + 1) else (c, p)
termination_by c
decreasing_by omega

/-- The digits `c` and the exponent `p` of the shortest decimal `c * 10 ^ p` in the interval.
A grid as fine as the distance from the center to an end has a point in the interval, and that
distance is at least `1 / den`, so the binary digits of the center bound the number of grids. -/
def shortest (v : Interval) : Nat × Int :=
  let (c, p) := v.search (floorLog v.center v.den) (v.center.log2 + 2)
  dropZeros c p

end Interval

end LinearSystems.Decimal
