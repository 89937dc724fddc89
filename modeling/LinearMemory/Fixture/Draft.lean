import LinearMemory.Fixture.Fault

/-!
# Scenarios in the making

The fields of a scenario are kept in a `Draft` while they are read. At its closing bracket the draft
becomes a scenario or is found wanting: a record misses a field, a row is too short.
-/

namespace LinearMemory.Fixture

/-- **The fields of a scenario** as far as they were read. -/
structure Draft where
  operations : Option (List Operation)
  length : Option UInt64
  size : Option UInt64

namespace Draft

/-- No field was read. -/
def empty : Draft := ⟨none, none, none⟩

/-- How many fields were read. -/
def count (d : Draft) : Nat :=
  [d.operations.isSome, d.length.isSome, d.size.isSome].count true

/-- A field that has to be there. -/
def require {α : Type} (field : String) : Option α → Except Fault α
  | some content => .ok content
  | none => .error (.mistyped (.missing field))

/-- The scenario of a record: the first missing field is named. -/
def ofRecord (d : Draft) : Except Fault Scenario := do
  return ⟨← require "ops" d.operations, ← require "len" d.length, ← require "memSize" d.size⟩

/-- The scenario of a row: the number of its elements is named. -/
def ofRow (d : Draft) : Except Fault Scenario :=
  match d with
  | ⟨some operations, some length, some size⟩ => .ok ⟨operations, length, size⟩
  | _ => .error (.mistyped (.scenarioTooShort d.count))

end Draft

end LinearMemory.Fixture
