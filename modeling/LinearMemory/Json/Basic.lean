import LinearMemory.Decimal.Layout
import LinearMemory.Text.Basic

/-!
# What a JSON text is made of, and what it holds

The octets that JSON gives a meaning to, and the classes that its grammar is stated with.

A number is an integer, exact, or a double. Which of the two it is depends on how it is written, not
on its value: `Json.Numeral` decides. A value is told as far as a reader can tell it apart: scalars
with their content, arrays and objects without it. The content of arrays and objects is either read
for its own sake, member by member, or of no concern to anyone.
-/

namespace LinearMemory.Json

/-! ### Octets -/

/-- The octet of an ASCII character. -/
def octet (c : Char) : UInt8 :=
  UInt8.ofNat c.toNat

/-- Whether an octet may stand between two tokens: blank, tab, line feed or carriage return. -/
def isBlank (b : UInt8) : Bool :=
  b = 0x20 || b = 0x09 || b = 0x0a || b = 0x0d

/-- The value of a decimal digit. -/
def digit? (b : UInt8) : Option Nat :=
  if 0x30 ≤ b ∧ b ≤ 0x39 then some (b.toNat - 0x30) else none

/-! ### Numbers -/

/-- **A number.** -/
inductive Number
  /-- An integer from `-2 ^ 63` up to `2 ^ 64 - 1`. -/
  | integer (n : Int)
  /-- A double with its sign. -/
  | real (negative : Bool) (magnitude : Double)
  deriving DecidableEq

namespace Number

/-- A double has its point in place from five places behind it to sixteen in front of it. -/
def layout : Layout := ⟨-5, 15⟩

/-- An integer in decimal. -/
def integerText (n : Int) : String :=
  String.ofList ((if n < 0 then ['-'] else []) ++ Nat.toDigits 10 n.natAbs)

/-- A double in the fewest digits that read back. -/
def realText (negative : Bool) (magnitude : Double) : String :=
  String.ofList ((if negative then ['-'] else []) ++ layout.write magnitude.shortest)

end Number

/-! ### Values -/

/-- **A value.** -/
inductive Value
  | null
  | boolean (b : Bool)
  | number (n : Number)
  | text (s : String)
  | array
  | object
  deriving DecidableEq

/-- How a value is named in a message. -/
def Value.describe : Value → String
  | .null => "null"
  | .boolean b => "boolean `" ++ (if b then "true" else "false") ++ "`"
  | .number (.integer n) => "integer `" ++ Number.integerText n ++ "`"
  | .number (.real negative magnitude) =>
    "floating point `" ++ Number.realText negative magnitude ++ "`"
  | .text s => "string " ++ Text.quote s
  | .array => "sequence"
  | .object => "map"

end LinearMemory.Json
