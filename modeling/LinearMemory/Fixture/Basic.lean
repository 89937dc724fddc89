import Std.Data.ExtTreeMap

/-!
# Fixtures

A fixture is a set of scenarios, each under a name. A scenario is a list of operations for a fresh
memory, most of them with the result they are expected to have, together with the logical length
and the store size that the memory is expected to end with.

Values and expected values are texts, kept as they were written: what bytes they spell is found out
when the scenario is replayed.
-/

namespace LinearMemory

/-- **An operation of a scenario.** -/
inductive Operation
  /-- Grow the store. -/
  | resize (size : UInt64)
  /-- Write a value. -/
  | write (offset : Int64) (size : UInt64) (value : String)
  /-- Append a value; it is expected to go to this offset. -/
  | append (value : String) (expect : UInt64)
  /-- Read a value; it is expected to be this one, or to be absent. -/
  | read (offset : Int64) (expect : Option String)
  /-- Look at a value where it stands, with the same expectation. -/
  | view (offset : Int64) (expect : Option String)
  /-- Normalize an offset; it is expected to mean this position. -/
  | normalize (offset : Int64) (expect : UInt64)
  deriving DecidableEq

/-- **A scenario.** -/
structure Scenario where
  /-- The operations, in order. -/
  operations : List Operation
  /-- The logical length expected at the end. -/
  length : UInt64
  /-- The store size expected at the end. -/
  size : UInt64
  deriving DecidableEq

/-- **A fixture**: scenarios in the order of their names. Names are ordered by their characters,
which is also the order of their octets. -/
abbrev Fixture := Std.ExtTreeMap String Scenario

end LinearMemory
