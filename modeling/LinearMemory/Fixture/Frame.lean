import LinearMemory.Fixture.Draft
import LinearMemory.Fixture.Operation

/-!
# What is open while a document is read

Part way through a document some brackets are open, and what was read inside them has to be kept
until they close. The types of this module say what that can be, and rule out anything else:

* a `Row` is an open square bracket and a `Record` an open curly one, with all that surrounds it;
* a `Place` is where a value has to come next;
* an `Around` is what a complete value stands in: a row, a record, or nothing at all if the value
  was the document.

The fields of a scenario are typed as they come. An operation is different: only the name of its
kind is, while its other values are kept until its bracket closes. Members that a scenario does not
have are not even kept: they are **skipped**, and what is skipped is held to fewer rules.
-/

namespace LinearMemory.Fixture

open Json

/-- Which bracket is open. -/
inductive Bracket
  | square
  | curly
  deriving DecidableEq

/-! ### Scenarios and operations -/

/-- **An open scenario**, a row or a record. -/
structure OpenScenario where
  /-- The scenarios before it. -/
  earlier : Fixture
  /-- Its name. -/
  name : String
  /-- Its bracket. -/
  bracket : Bracket
  /-- Its fields so far. -/
  draft : Draft

/-- **An open operation**: the scenario it belongs to and the operations before it, the last one
first. -/
structure OpenOperation where
  scenario : OpenScenario
  earlier : List Operation

/-- **What a value belongs to** that is not typed as it comes. -/
inductive Inside
  /-- A member of an operation that is a record, with what was read of the record before it: its
  kind and its other members, the last one first. -/
  | member (o : OpenOperation) (kind : Option Operation.Kind) (earlier : Members) (key : String)
  /-- An element of an operation that is a row, with its kind and the elements before it, the last
  one first. -/
  | element (o : OpenOperation) (kind : Operation.Kind) (earlier : List Value)
  /-- A member that a scenario does not have. -/
  | skipped (s : OpenScenario)

/-- Whether a value is skipped. -/
def Inside.isSkipped : Inside → Bool
  | .member .. | .element .. => false
  | .skipped _ => true

/-! ### Brackets and places -/

/-- **An open row.** -/
inductive Row
  /-- A scenario. -/
  | scenario (s : OpenScenario)
  /-- The operations of a scenario, the last one first. -/
  | operations (s : OpenScenario) (done : List Operation)
  /-- An operation, before its kind was read or with its kind and elements, the last one first. -/
  | operation (o : OpenOperation) (read : Option (Operation.Kind × List Value))
  /-- An array in an untyped value, with the brackets around it that belong to the value, the
  innermost one first. -/
  | nested (i : Inside) (outer : List Bracket)

/-- **An open record.** -/
inductive Record
  /-- The document, with the scenarios so far. -/
  | document (done : Fixture)
  /-- A scenario. -/
  | scenario (s : OpenScenario)
  /-- An operation, with its kind if it was read and its other members, the last one first. -/
  | operation (o : OpenOperation) (kind : Option Operation.Kind) (members : Members)
  /-- An object in an untyped value, with the brackets around it that belong to the value, the
  innermost one first. -/
  | nested (i : Inside) (outer : List Bracket)

/-- **What a complete value stands in.** -/
inductive Around
  | row (r : Row)
  | record (r : Record)
  /-- The value was the document. -/
  | nothing (fixture : Fixture)

/-- **Where a value has to come.** -/
inductive Place
  /-- The whole document. -/
  | document
  /-- The scenario of a name. -/
  | scenario (earlier : Fixture) (name : String)
  /-- The operations of a scenario. -/
  | operations (s : OpenScenario)
  /-- The logical length of a scenario. -/
  | length (s : OpenScenario)
  /-- The store size of a scenario. -/
  | size (s : OpenScenario)
  /-- An operation. -/
  | operation (o : OpenOperation)
  /-- The kind of an operation that is a record, with the members before it. -/
  | recordKind (o : OpenOperation) (members : Members)
  /-- The kind of an operation that is a row. -/
  | rowKind (o : OpenOperation)
  /-- An untyped value, or a part of one inside brackets, the innermost one first. -/
  | inside (i : Inside) (brackets : List Bracket)

/-- Whether a value at a place is skipped. -/
def Place.isSkipped : Place → Bool
  | .inside i _ => i.isSkipped
  | _ => false

/-- Whether a record is skipped. -/
def Record.isSkipped : Record → Bool
  | .nested i _ => i.isSkipped
  | _ => false

end LinearMemory.Fixture
