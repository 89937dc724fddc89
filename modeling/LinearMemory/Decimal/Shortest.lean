import LinearMemory.Decimal.Double

/-!
# The shortest decimal of a double

A decimal reads back as a double if it lies among the reals that round to that double. These form
an interval around it that reaches half way to its neighbours, and the ends belong to it if the
significand is even. `Double.shortest` is the decimal with the fewest digits that reads back, and
of several ones the nearest.

For each number of digits only two decimals come into question, the double's neighbours on the grid
of that many digits: if any point of the grid lies in the interval, one of these does. Seventeen
digits are always enough.
-/

namespace LinearMemory

/-- **A decimal**: `digits · 10 ^ exponent`. -/
structure Decimal where
  digits : Nat
  exponent : Int
  deriving DecidableEq

/-- How many digits a natural number has. -/
def Decimal.digitCount (n : Nat) : Nat :=
  (Nat.toDigits 10 n).length

namespace Double

/-- The position of the first digit of a double: the power of ten it stands for. -/
def magnitude (x : Double) : Int :=
  let (num, den) := x.quotient
  if den ≤ num then (Decimal.digitCount (num / den) : Int) - 1
  else -(Decimal.digitCount ((den - 1) / num) : Int)

/-- A decimal in units of a quarter of the last place of a double, as a quotient. The double itself
is four times its significand in these units. -/
def quarters (x : Double) (c : Decimal) : Nat × Nat :=
  scaled (c.digits * Nat.pow 10 c.exponent.toNat) (Nat.pow 10 (-c.exponent).toNat) (x.exponent - 2)

/-- How far below a double the reals reach that round to it, in quarters of its last place. At a
power of two the neighbour below is only half as far away. -/
def reachBelow (x : Double) : Nat :=
  if x.significand = Nat.pow 2 (precision - 1) ∧ minExponent < x.exponent then 1 else 2

/-- Whether a decimal reads back as a double. -/
def readsBack (x : Double) (c : Decimal) : Bool :=
  let (num, den) := x.quarters c
  let first := (4 * x.significand - x.reachBelow) * den
  let last := (4 * x.significand + 2) * den
  if x.significand % 2 = 0 then first ≤ num ∧ num ≤ last else first < num ∧ num < last

/-- How far a decimal is from a double, in a unit that depends on the decimal's exponent alone. -/
def distance (x : Double) (c : Decimal) : Nat :=
  let (num, den) := x.quarters c
  (4 * x.significand * den - num) + (num - 4 * x.significand * den)

/-- The nearer of a double's two neighbours with this many digits, as far as they read back. Of two
equally near ones it is the even one. -/
def withDigits? (x : Double) (count : Nat) : Option Decimal :=
  let exponent : Int := x.magnitude - count + 1
  let (num, den) := x.quotient
  let below : Decimal :=
    ⟨num * Nat.pow 10 (-exponent).toNat / (den * Nat.pow 10 exponent.toNat), exponent⟩
  let above : Decimal := ⟨below.digits + 1, exponent⟩
  match x.readsBack below, x.readsBack above with
  | true, true =>
    if x.distance below < x.distance above then some below
    else if x.distance above < x.distance below then some above
    else if below.digits % 2 = 0 then some below else some above
  | true, false => some below
  | false, true => some above
  | false, false => none

/-- A double's own decimal, with all its digits. -/
def exact (x : Double) : Decimal :=
  ⟨x.significand * Nat.pow 2 x.exponent.toNat * Nat.pow 5 (-x.exponent).toNat, min x.exponent 0⟩

/-- **The shortest decimal that reads back.** -/
def shortest (x : Double) : Decimal :=
  ((List.range 17).findSome? fun i => x.withDigits? (i + 1)).getD x.exact

end Double

end LinearMemory
