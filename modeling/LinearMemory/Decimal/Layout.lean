import LinearMemory.Decimal.Shortest

/-!
# The layout of a decimal

A decimal of middling size is written with its point in place, and with a zero behind the point if
no digits stand there. Any other is written with one digit in front of the point and a power of ten
behind the digits, the power with its sign. Where the middling sizes end are the fields of a
`Layout`.
-/

namespace LinearMemory

/-- **How decimals are written.** -/
structure Layout where
  /-- The least position of a first digit that is written with the point in place. -/
  least : Int
  /-- The greatest such position. -/
  greatest : Int

namespace Layout

/-- Digits with the point in place, the first of them standing for `10 ^ position`. -/
def positional (digits : List Char) (position : Int) : List Char :=
  let whole := (position + 1).toNat
  if position < 0 then
    ['0', '.'] ++ List.replicate (-position - 1).toNat '0' ++ digits
  else if digits.length ≤ whole then
    digits ++ List.replicate (whole - digits.length) '0' ++ ['.', '0']
  else digits.take whole ++ ['.'] ++ digits.drop whole

/-- Digits with a power of ten. -/
def scientific (digits : List Char) (position : Int) : List Char :=
  let mantissa := match digits with
    | first :: second :: rest => first :: '.' :: second :: rest
    | short => short
  let sign := if position < 0 then '-' else '+'
  mantissa ++ ['e', sign] ++ Nat.toDigits 10 position.natAbs

/-- The digits of a number without the zeros at its end. -/
def significantDigits (n : Nat) : List Char :=
  ((Nat.toDigits 10 n).reverse.dropWhile (· == '0')).reverse

/-- A decimal as it is written. -/
def write (layout : Layout) (c : Decimal) : List Char :=
  if c.digits = 0 then ['0', '.', '0']
  else
    let digits := significantDigits c.digits
    let position := c.exponent + Decimal.digitCount c.digits - 1
    if layout.least ≤ position ∧ position ≤ layout.greatest then positional digits position
    else scientific digits position

end Layout

end LinearMemory
