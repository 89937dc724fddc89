import LinearMemory.Fixture.Transition
import LinearMemory.Proofs.Json.Scalars

/-!
# What a syntax tree means

The reader finds out what a document means while it goes over its octets, with a frame for each
bracket that is open. Here the same is told of a whole tree, by recursion: an array is its elements
and an object its members, taken one after the other. The first fault is what a tree means if it has
any. Faults of types and of syntax come in one order, that of the text.

How much of a tree is looked at depends on where it stands:

* Where a scalar is expected, a bracket is refused as it opens: only the `surface` of a tree counts.
* A value of an operation is kept until the kind of the operation is known, so all of it has to be
  in order, and its brackets are counted (`Json.Tree.value`).
* A member that a scenario does not have is passed over, whatever its value
  (`Fixture.Draft.member`).

`Json.Tree.operation`, `Json.Tree.operations`, `Json.Tree.scenario` and `Json.Tree.fixture` are what
a tree means in the place of each.
-/

namespace LinearMemory

open Fixture

namespace Json

/-! ### Values -/

/-- The text of a literal, or its fault as one of the document. -/
def Quoted.name (q : Quoted) : Except Fault String :=
  q.text.mapError .malformed

@[simp] theorem Member.name_key (m : Member) : m.key.name = .ok m.name := by
  rw [Quoted.name, m.text_key]
  rfl

/-- **What is seen of a tree** without looking into brackets. -/
def Tree.surface : Tree → Except Fault Value
  | .null => .ok .null
  | .boolean b => .ok (.boolean b)
  | .number n => do return .number (← n.value.mapError .malformed)
  | .text q => do return .text (← q.name)
  | .array _ => .ok .array
  | .object _ => .ok .object

mutual

/-- **What a tree means as an untyped value**, with so many brackets open around it. -/
def Tree.value : Tree → Nat → Except Fault Value
  | .array elements, depth =>
    if depth + 1 < depthLimit then do
      Tree.checkElements elements (depth + 1)
      return .array
    else .error (.malformed .tooDeep)
  | .object members, depth =>
    if depth + 1 < depthLimit then do
      Tree.checkMembers members (depth + 1)
      return .object
    else .error (.malformed .tooDeep)
  | t, _ => t.surface

/-- Look through the elements of an untyped array. -/
def Tree.checkElements : List Tree → Nat → Except Fault Unit
  | [], _ => .ok ()
  | t :: rest, depth => do
    discard (Tree.value t depth)
    Tree.checkElements rest depth

/-- Look through the members of an untyped object. -/
def Tree.checkMembers : List (Quoted × Tree) → Nat → Except Fault Unit
  | [], _ => .ok ()
  | (q, t) :: rest, depth => do
    discard q.name
    discard (Tree.value t depth)
    Tree.checkMembers rest depth

end

/-- A word, where one is expected. -/
def Tree.word (expected : Expectation) (t : Tree) : Except Fault UInt64 := do
  Field.word expected (← t.surface)

/-- The kind of an operation, where one is expected. -/
def Tree.kind (t : Tree) : Except Fault Operation.Kind := do
  Field.kind (← t.surface)

end Json

open Json

/-! ### Operations -/

namespace Fixture

/-- A field must not have been read before. -/
def unread {α : Type} (field : String) (content : Option α) : Except Fault Unit :=
  if content.isSome then .error (.mistyped (.repeated field)) else .ok ()

/-- **An operation as a record**, part way through: its kind and its other members, the last one
first. -/
structure PartialRecord where
  kind : Option Operation.Kind
  members : Members

/-- One more member of an operation. -/
def PartialRecord.member (r : PartialRecord) (m : Quoted × Tree) :
    Except Fault PartialRecord := do
  let key ← m.1.name
  if key = "op" then
    unread key r.kind
    return ⟨some (← m.2.kind), r.members⟩
  else
    return ⟨r.kind, (key, ← m.2.value operationDepth) :: r.members⟩

/-- The operation of a record. -/
def PartialRecord.operation (r : PartialRecord) : Except Fault Operation :=
  match r.kind with
  | none => .error (.mistyped (.missing "op"))
  | some kind => Members.operation r.members.reverse kind

/-- **An operation as a row**, part way through: its kind and the values behind it, the last one
first. -/
abbrev PartialRow := Option (Operation.Kind × List Value)

/-- One more element of an operation. -/
def PartialRow.element (r : PartialRow) (t : Tree) : Except Fault PartialRow :=
  match r with
  | none => do return some (← t.kind, [])
  | some (kind, values) => do return some (kind, (← t.value operationDepth) :: values)

/-- The operation of a row. -/
def PartialRow.operation : PartialRow → Except Fault Operation
  | none => .error (.mistyped (.missing "op"))
  | some (kind, values) => Values.operation values.reverse kind

end Fixture

/-- **The operation that a tree means.** -/
def Json.Tree.operation : Tree → Except Fault Operation
  | .object members => do (← members.foldlM PartialRecord.member ⟨none, []⟩).operation
  | .array elements => do (← elements.foldlM PartialRow.element none).operation
  | t => do wrongType (← t.surface) .operation

/-- **The operations that a tree means.** -/
def Json.Tree.operations : Tree → Except Fault (List Operation)
  | .array elements => elements.mapM Tree.operation
  | t => do wrongType (← t.surface) .operations

/-! ### Scenarios -/

namespace Fixture

/-- **One more member of a scenario.** One that a scenario does not have makes no difference. -/
def Draft.member (d : Draft) (m : Quoted × Tree) : Except Fault Draft := do
  let key ← m.1.name
  if key = "ops" then
    unread key d.operations
    return { d with operations := some (← m.2.operations) }
  else if key = "len" then
    unread key d.length
    return { d with length := some (← m.2.word .word) }
  else if key = "memSize" then
    unread key d.size
    return { d with size := some (← m.2.word .storeSize) }
  else
    return d

/-- **One more element of a scenario**: the next field, unless there is none left. -/
def Draft.element (d : Draft) (t : Tree) : Except Fault Draft :=
  match d with
  | ⟨none, _, _⟩ => do return { d with operations := some (← t.operations) }
  | ⟨some _, none, _⟩ => do return { d with length := some (← t.word .word) }
  | ⟨some _, some _, none⟩ => do return { d with size := some (← t.word .storeSize) }
  | ⟨some _, some _, some _⟩ => .error (.malformed .trailingCharacters)

end Fixture

/-- **The scenario that a tree means.** -/
def Json.Tree.scenario : Tree → Except Fault Scenario
  | .object members => do (← members.foldlM Draft.member .empty).ofRecord
  | .array elements => do (← elements.foldlM Draft.element .empty).ofRow
  | t => do wrongType (← t.surface) .scenario

/-! ### Documents -/

/-- **One more member of a fixture**: a scenario, which takes the place of one of the same name. -/
def Fixture.member (f : Fixture) (m : Quoted × Tree) : Except Fault Fixture := do
  let name ← m.1.name
  return f.insert name (← m.2.scenario)

/-- **The fixture that a tree means.** -/
def Json.Tree.fixture : Tree → Except Fault Fixture
  | .object members => members.foldlM Fixture.member ∅
  | t => do wrongType (← t.surface) .fixture

end LinearMemory
