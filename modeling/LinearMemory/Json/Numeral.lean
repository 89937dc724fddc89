import LinearMemory.Json.Basic
import LinearMemory.Json.Fault

/-!
# Numerals

A numeral is read one octet at a time. What has to be remembered of it is small: its sign, a
significand, a power of ten and the stage that its reading has reached.

The significand takes up digits as long as it stays below `2 ^ 64`. The digits in front of the point
that it does not take up still count as places; those behind the point are dropped.

A numeral without point, power and surplus digits is an integer, unless it is a negative zero or
below `-2 ^ 63`. Any other is a double, found from the significand by one multiplication with or one
division by a power of ten, each rounded. A numeral too small for a double is zero, one too large
is refused.
-/

namespace LinearMemory.Json

/-- The least number that a significand does not reach. -/
def wordLimit : Nat := Nat.pow 2 64

namespace Numeral

/-- **How far the reading of a numeral has come.** -/
inductive Stage
  /-- Behind a minus sign. -/
  | sign
  /-- Behind a zero that the numeral starts with. -/
  | zero
  /-- Behind a digit in front of the point; `full` once the significand has refused one. -/
  | whole (full : Bool)
  /-- Behind the point. -/
  | point
  /-- Behind a digit behind the point; `full` once the significand has refused one of these. -/
  | fraction (full : Bool)
  /-- Behind the mark of a power. -/
  | mark
  /-- Behind the sign of a power. -/
  | powerSign
  /-- Behind a digit of a power. -/
  | power
  deriving DecidableEq

/-- Whether a numeral may end at this stage. -/
def Stage.isComplete : Stage → Bool
  | .zero | .whole _ | .fraction _ | .power => true
  | .sign | .point | .mark | .powerSign => false

end Numeral

/-- **What is known of a numeral** part way through. -/
structure Numeral where
  /-- Whether it starts with a minus sign. -/
  negative : Bool
  /-- The digits taken up. -/
  significand : Nat
  /-- The places that the digits leave: those not taken up, less those behind the point. -/
  places : Int
  /-- Whether its power is negative. -/
  powerNegative : Bool
  /-- Its power, without sign. -/
  power : Nat
  /-- How far it has been read. -/
  stage : Numeral.Stage
  deriving DecidableEq

namespace Numeral

/-- The numeral that an octet starts, if it starts one. -/
def start? (b : UInt8) : Option Numeral :=
  if b = octet '-' then some ⟨true, 0, 0, false, 0, .sign⟩
  else (digit? b).map fun d =>
    ⟨false, d, 0, false, 0, if d = 0 then .zero else .whole false⟩

/-- The significand with one more digit, if it takes it up. -/
def absorb? (significand digit : Nat) : Option Nat :=
  if 10 * significand + digit < wordLimit then some (10 * significand + digit) else none

/-- One more digit in front of the point. -/
def pushWhole (n : Numeral) (full : Bool) (d : Nat) : Numeral :=
  match full, absorb? n.significand d with
  | false, some s => { n with significand := s, stage := .whole false }
  | _, _ => { n with places := n.places + 1, stage := .whole true }

/-- One more digit behind the point. -/
def pushFraction (n : Numeral) (full : Bool) (d : Nat) : Numeral :=
  match full, absorb? n.significand d with
  | false, some s => { n with significand := s, places := n.places - 1, stage := .fraction false }
  | _, _ => { n with stage := .fraction true }

/-- One more digit of the power. -/
def pushPower (n : Numeral) (d : Nat) : Numeral :=
  { n with power := 10 * n.power + d, stage := .power }

/-- **What an octet means to a numeral** that it follows. -/
inductive Progress
  /-- It belongs to the numeral. -/
  | more (n : Numeral)
  /-- The numeral is complete without it. -/
  | over
  /-- The numeral needs something else here. -/
  | bad

/-- What the point or the mark of a power means behind digits, and any other octet. -/
def punctuate (n : Numeral) (pointAllowed : Bool) (b : UInt8) : Progress :=
  if b = octet '.' ∧ pointAllowed then .more { n with stage := .point }
  else if b = octet 'e' ∨ b = octet 'E' then .more { n with stage := .mark }
  else .over

/-- Read one octet. -/
def next (n : Numeral) (b : UInt8) : Progress :=
  match n.stage, digit? b with
  | .sign, some d =>
    .more { n with significand := d, stage := if d = 0 then .zero else .whole false }
  | .zero, some _ => .bad
  | .zero, none => n.punctuate true b
  | .whole full, some d => .more (n.pushWhole full d)
  | .whole _, none => n.punctuate true b
  | .point, some d => .more (n.pushFraction false d)
  | .fraction full, some d => .more (n.pushFraction full d)
  | .fraction _, none => n.punctuate false b
  | .mark, some d | .powerSign, some d | .power, some d => .more (n.pushPower d)
  | .mark, none =>
    if b = octet '+' then .more { n with stage := .powerSign }
    else if b = octet '-' then .more { n with powerNegative := true, stage := .powerSign }
    else .bad
  | .power, none => .over
  | .sign, none | .point, none | .powerSign, none => .bad

/-! ### The value of a numeral -/

/-- The greatest power of ten that is a double. -/
def maxPower : Nat := 308

/-- The double nearest to a power of ten. -/
def tenTo (k : Nat) : Option Double :=
  Double.ofNat? (Nat.pow 10 k)

/-- A double divided by a power of ten, by the greatest ones first. -/
def divideByTenTo (x : Double) (k : Nat) : Option Double :=
  if k ≤ maxPower then tenTo k >>= x.div?
  else if x.significand = 0 then some x
  else do
    let y ← tenTo maxPower >>= x.div?
    divideByTenTo y (k - maxPower)
termination_by k
decreasing_by
  have : maxPower = 308 := rfl
  omega

/-- A double multiplied with a power of ten, if the product is not too large. -/
def multiplyByTenTo (x : Double) (k : Nat) : Option Double :=
  if k ≤ maxPower then tenTo k >>= x.mul?
  else if x.significand = 0 then some x
  else none

/-- The double of a significand with a power of ten. -/
def magnitude? (significand : Nat) (power : Int) : Option Double := do
  let x ← Double.ofNat? significand
  if 0 ≤ power then multiplyByTenTo x power.toNat else divideByTenTo x (-power).toNat

/-- The power of ten that a significand is taken with. -/
def totalPower (n : Numeral) : Int :=
  n.places + (if n.powerNegative then -(n.power : Int) else n.power)

/-- The integer that a numeral stands for, if it stands for one. -/
def integer? (n : Numeral) : Option Int :=
  match n.stage with
  | .zero | .whole false =>
    if ¬ n.negative then some n.significand
    else if 0 < n.significand ∧ n.significand ≤ Nat.pow 2 63 then some (-n.significand)
    else none
  | _ => none

/-- **The number that a numeral stands for.** -/
def value (n : Numeral) : Except Malformed Number :=
  match n.integer? with
  | some i => .ok (.integer i)
  | none =>
    match magnitude? n.significand n.totalPower with
    | some x => .ok (.real n.negative x)
    | none => .error .numberOutOfRange

end Numeral

end LinearMemory.Json
