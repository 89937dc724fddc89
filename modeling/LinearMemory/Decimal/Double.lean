/-!
# Doubles

A double without its sign is a number `significand · 2 ^ exponent`, held here as these two. There
are no infinities: an operation whose result lies beyond the doubles has none.

Every operation is the exact result followed by one rounding, `Double.nearest`, which takes the
exact result as a quotient of two natural numbers and answers the nearest double, of two equally
near ones the even one.
-/

namespace LinearMemory

/-- **A double** that is not negative: `significand · 2 ^ exponent`. -/
structure Double where
  significand : Nat
  exponent : Int
  deriving DecidableEq

namespace Double

/-- A significand has at most this many bits. -/
def precision : Nat := 53

/-- No exponent is below this one. -/
def minExponent : Int := -1074

/-- No exponent is above this one. -/
def maxExponent : Int := 971

/-- The whole number nearest to a quotient, of two equally near ones the even one. -/
def roundEven (num den : Nat) : Nat :=
  let whole := num / den
  let rest := num % den
  if 2 * rest > den ∨ (2 * rest = den ∧ whole % 2 = 1) then whole + 1 else whole

/-- A quotient measured in units of `2 ^ exponent`: the new numerator and denominator. -/
def scaled (num den : Nat) (exponent : Int) : Nat × Nat :=
  (num * Nat.pow 2 (-exponent).toNat, den * Nat.pow 2 exponent.toNat)

/-- The least exponent at which the whole part of a quotient fits into a significand. The logarithms
leave two exponents to choose from. -/
def exponentFor (num den : Nat) : Int :=
  let guess : Int := (Nat.log2 num : Int) - Nat.log2 den - precision
  let (n, d) := scaled num den guess
  max minExponent (if n / d < Nat.pow 2 precision then guess else guess + 1)

/-- **The double nearest to a quotient**, if the quotient is not too large. -/
def nearest (num den : Nat) : Option Double :=
  let exponent := exponentFor num den
  let (n, d) := scaled num den exponent
  let significand := roundEven n d
  let (significand, exponent) :=
    if significand = Nat.pow 2 precision then (Nat.pow 2 (precision - 1), exponent + 1)
    else (significand, exponent)
  if exponent ≤ maxExponent then some ⟨significand, exponent⟩ else none

/-- The double nearest to a natural number. -/
def ofNat? (n : Nat) : Option Double :=
  nearest n 1

/-- A double as a quotient. -/
def quotient (x : Double) : Nat × Nat :=
  scaled x.significand 1 (-x.exponent)

/-- The product of two doubles. -/
def mul? (x y : Double) : Option Double :=
  let (a, b) := x.quotient
  let (c, d) := y.quotient
  nearest (a * c) (b * d)

/-- The quotient of two doubles. -/
def div? (x y : Double) : Option Double :=
  let (a, b) := x.quotient
  let (c, d) := y.quotient
  nearest (a * d) (b * c)

end Double

end LinearMemory
