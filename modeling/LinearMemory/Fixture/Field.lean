import LinearMemory.Fixture.Fault

/-!
# Fields from values

What a field holds is found out from the value that stands for it. A value of another type is
refused, and so is an integer outside the range of the field. A number with a point or a power is
never an integer, whatever its value.
-/

namespace LinearMemory.Fixture.Field

open Json

/-- An integer from zero up to `2 ^ 64 - 1`. -/
def word (expected : Expectation) : Value → Except Fault UInt64
  | .number (.integer n) =>
    if 0 ≤ n ∧ n < Nat.pow 2 64 then .ok (UInt64.ofNat n.toNat)
    else .error (.mistyped (.outOfRange n expected))
  | v => wrongType v expected

/-- An integer from `-2 ^ 63` up to `2 ^ 63 - 1`. -/
def offset : Value → Except Fault Int64
  | .number (.integer n) =>
    if -Nat.pow 2 63 ≤ n ∧ n < Nat.pow 2 63 then .ok (Int64.ofInt n)
    else .error (.mistyped (.outOfRange n .offset))
  | v => wrongType v .offset

/-- A text. -/
def text : Value → Except Fault String
  | .text s => .ok s
  | v => wrongType v .text

/-- A text, or nothing. -/
def optionalText : Value → Except Fault (Option String)
  | .null => .ok none
  | v => (text v).map some

/-- The kind of operation that a value names. -/
def kind : Value → Except Fault Operation.Kind
  | .text s =>
    match Operation.Kind.ofName? s with
    | some kind => .ok kind
    | none => .error (.mistyped (.unknownKind s))
  | v => wrongType v .kind

/-- Check that a value is what a field holds. -/
def check : Operation.FieldType → Value → Except Fault Unit
  | .word, v => discard (word .word v)
  | .offset, v => discard (offset v)
  | .text, v => discard (text v)
  | .optionalText, v => discard (optionalText v)

end LinearMemory.Fixture.Field
