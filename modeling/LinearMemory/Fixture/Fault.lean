import LinearMemory.Fixture.Schema
import LinearMemory.Json.Basic
import LinearMemory.Json.Fault

/-!
# Faults of a fixture document

A document is refused because it is no JSON text, because it ends too early, or because it is JSON
but not a fixture: some value has the wrong type or range, or fields are missing, repeated or too
many.
-/

namespace LinearMemory.Fixture

open Json

/-- **What a value was expected to be.** -/
inductive Expectation
  /-- An integer from zero up to `2 ^ 64 - 1`. -/
  | word
  /-- The same, for the size of a store. -/
  | storeSize
  /-- An integer from `-2 ^ 63` up to `2 ^ 63 - 1`. -/
  | offset
  /-- A text. -/
  | text
  /-- The whole document. -/
  | fixture
  /-- A scenario. -/
  | scenario
  /-- The operations of a scenario. -/
  | operations
  /-- An operation. -/
  | operation
  /-- The name of a kind of operation. -/
  | kind
  deriving DecidableEq

/-- How a message names what was expected. -/
def Expectation.phrase : Expectation → String
  | .word => "u64"
  | .storeSize => "usize"
  | .offset => "i64"
  | .text => "a string"
  | .fixture => "a map"
  | .scenario => "struct Vm"
  | .operations => "a sequence"
  | .operation => "internally tagged enum Op"
  | .kind => "variant identifier"

/-- **Why a JSON text is no fixture.** -/
inductive Mistyped
  /-- A value is of another type. -/
  | wrongType (got : Value) (expected : Expectation)
  /-- An integer is outside the range. -/
  | outOfRange (got : Int) (expected : Expectation)
  /-- A field is missing. -/
  | missing (field : String)
  /-- A field occurs twice. -/
  | repeated (field : String)
  /-- There is no operation of this name. -/
  | unknownKind (name : String)
  /-- A scenario in a row has only this many elements. -/
  | scenarioTooShort (count : Nat)
  /-- An operation in a row has only this many elements behind its name. -/
  | operationTooShort (kind : Operation.Kind) (count : Nat)
  /-- An operation in a row has this many elements behind its name, too many of them. -/
  | operationTooLong (kind : Operation.Kind) (count : Nat)
  deriving DecidableEq

/-- A number of elements in words. -/
def elements (count : Nat) : String :=
  toString count ++ (if count = 1 then " element" else " elements")

/-- A name between backquotes. -/
def backquote (name : String) : String :=
  "`" ++ name ++ "`"

/-- The wording of a cause. -/
def Mistyped.message : Mistyped → String
  | .wrongType got expected =>
    "invalid type: " ++ got.describe ++ ", expected " ++ expected.phrase
  | .outOfRange got expected =>
    "invalid value: " ++ (Value.number (.integer got)).describe ++ ", expected " ++ expected.phrase
  | .missing field => "missing field " ++ backquote field
  | .repeated field => "duplicate field " ++ backquote field
  | .unknownKind name =>
    "unknown variant " ++ backquote name ++ ", expected one of " ++
      ", ".intercalate (Operation.Kind.all.map fun kind => backquote kind.name)
  | .scenarioTooShort count =>
    "invalid length " ++ toString count ++ ", expected struct Vm with " ++ elements 3
  | .operationTooShort kind count =>
    "invalid length " ++ toString count ++ ", expected struct variant Op::" ++ kind.title ++
      " with " ++ elements kind.fields.length
  | .operationTooLong kind count =>
    "invalid length " ++ toString count ++ ", expected " ++ elements kind.fields.length ++
      " in sequence"

/-- **Why a document is refused.** -/
inductive Fault
  /-- The text is no JSON. -/
  | malformed (cause : Malformed)
  /-- The text ends too early. -/
  | truncated (inside : Truncated)
  /-- The text is JSON but no fixture. -/
  | mistyped (cause : Mistyped)
  deriving DecidableEq

/-- The wording of a fault. -/
def Fault.message : Fault → String
  | .malformed cause => cause.message
  | .truncated inside => inside.message
  | .mistyped cause => cause.message

/-- A value of the wrong type. -/
def wrongType {α : Type} (got : Value) (expected : Expectation) : Except Fault α :=
  .error (.mistyped (.wrongType got expected))

end LinearMemory.Fixture
