import LinearMemory.Fixture.Frame
import LinearMemory.Json.Literal
import LinearMemory.Json.Numeral

/-!
# How what is open changes

What becomes of the frames of `LinearMemory.Fixture.Frame` when a value is complete, when a bracket
opens, when an element or a key begins and when a bracket closes. Each of these may turn out to be
a fault: a value of the wrong type, a field that occurs twice, a bracket too many.
-/

namespace LinearMemory.Fixture

open Json

/-! ### A value is complete -/

/-- A scenario, back between its fields. -/
def OpenScenario.resume (s : OpenScenario) : Around :=
  match s.bracket with
  | .square => .row (.scenario s)
  | .curly => .record (.scenario s)

/-- A scenario is complete. -/
def OpenScenario.finish (s : OpenScenario) (scenario : Scenario) : Around :=
  .record (.document (s.earlier.insert s.name scenario))

/-- An operation is complete. -/
def OpenOperation.finish (o : OpenOperation) (operation : Operation) : Around :=
  .row (.operations o.scenario (operation :: o.earlier))

/-- An untyped value is complete, or a part of one inside brackets. -/
def Inside.resume (i : Inside) : List Bracket → Value → Around
  | .square :: outer, _ => .row (.nested i outer)
  | .curly :: outer, _ => .record (.nested i outer)
  | [], v =>
    match i with
    | .member o kind earlier key => .record (.operation o kind ((key, v) :: earlier))
    | .element o kind earlier => .row (.operation o (some (kind, v :: earlier)))
    | .skipped s => s.resume

/-- A scalar comes at a place. -/
def Place.scalar (v : Value) : Place → Except Fault Around
  | .document => wrongType v .fixture
  | .scenario .. => wrongType v .scenario
  | .operations _ => wrongType v .operations
  | .length s => do
    let length ← Field.word .word v
    return { s with draft := { s.draft with length := some length } }.resume
  | .size s => do
    let size ← Field.word .storeSize v
    return { s with draft := { s.draft with size := some size } }.resume
  | .operation _ => wrongType v .operation
  | .recordKind o members => do
    let kind ← Field.kind v
    return .record (.operation o (some kind) members)
  | .rowKind o => do
    let kind ← Field.kind v
    return .row (.operation o (some (kind, [])))
  | .inside i brackets => .ok (i.resume brackets v)

/-- A text comes at a place. One that is skipped is not looked into. -/
def Place.literal (l : Literal) (p : Place) : Except Fault Around :=
  if p.isSkipped then p.scalar .null
  else do
    let s ← l.text.mapError .malformed
    p.scalar (.text s)

/-- A number comes at a place. One that is skipped is not computed. -/
def Place.numeral (n : Numeral) (p : Place) : Except Fault Around :=
  if p.isSkipped then p.scalar .null
  else do
    let number ← n.value.mapError .malformed
    p.scalar (.number number)

/-! ### A bracket opens -/

/-- So many brackets may not be open at once. -/
def depthLimit : Nat := 128

/-- How many brackets are open around an untyped value that is not skipped: those of the document,
the scenario, the operations and the operation. -/
def operationDepth : Nat := 4

/-- Whether one more bracket may open in an untyped value. -/
def Inside.admits (i : Inside) (brackets : List Bracket) : Bool :=
  i.isSkipped || operationDepth + brackets.length + 1 < depthLimit

/-- A square bracket opens at a place: the row, and the place of its first element. -/
def Place.openRow : Place → Except Fault (Row × Place)
  | .document => wrongType .array .fixture
  | .scenario earlier name =>
    let s : OpenScenario := ⟨earlier, name, .square, .empty⟩
    .ok (.scenario s, .operations s)
  | .operations s => .ok (.operations s [], .operation ⟨s, []⟩)
  | .length _ => wrongType .array .word
  | .size _ => wrongType .array .storeSize
  | .operation o => .ok (.operation o none, .rowKind o)
  | .recordKind .. | .rowKind _ => wrongType .array .kind
  | .inside i brackets =>
    if i.admits brackets then .ok (.nested i brackets, .inside i (.square :: brackets))
    else .error (.malformed .tooDeep)

/-- A curly bracket opens at a place. -/
def Place.openRecord : Place → Except Fault Record
  | .document => .ok (.document ∅)
  | .scenario earlier name => .ok (.scenario ⟨earlier, name, .curly, .empty⟩)
  | .operations _ => wrongType .object .operations
  | .length _ => wrongType .object .word
  | .size _ => wrongType .object .storeSize
  | .operation o => .ok (.operation o none [])
  | .recordKind .. | .rowKind _ => wrongType .object .kind
  | .inside i brackets =>
    if i.admits brackets then .ok (.nested i brackets) else .error (.malformed .tooDeep)

/-! ### Inside a bracket -/

/-- The place of the next element of a row. A scenario with all its fields has none. -/
def Row.next? : Row → Option Place
  | .scenario s =>
    match s.draft with
    | ⟨none, _, _⟩ => some (.operations s)
    | ⟨some _, none, _⟩ => some (.length s)
    | ⟨some _, some _, none⟩ => some (.size s)
    | ⟨some _, some _, some _⟩ => none
  | .operations s done => some (.operation ⟨s, done⟩)
  | .operation o none => some (.rowKind o)
  | .operation o (some (kind, earlier)) => some (.inside (.element o kind earlier) [])
  | .nested i outer => some (.inside i (.square :: outer))

/-- The place of a field that may not occur twice. -/
def once {α : Type} (field : String) (content : Option α) (p : Place) : Except Fault Place :=
  if content.isSome then .error (.mistyped (.repeated field)) else .ok p

/-- The place of the value behind a key. -/
def Record.value (key : String) : Record → Except Fault Place
  | .document done => .ok (.scenario done key)
  | .scenario s =>
    if key = "ops" then once key s.draft.operations (.operations s)
    else if key = "len" then once key s.draft.length (.length s)
    else if key = "memSize" then once key s.draft.size (.size s)
    else .ok (.inside (.skipped s) [])
  | .operation o kind members =>
    if key = "op" then once key kind (.recordKind o members)
    else .ok (.inside (.member o kind members key) [])
  | .nested i outer => .ok (.inside i (.curly :: outer))

/-- The place of the value behind a key. A key that is skipped is not looked into. -/
def Record.literal (l : Literal) (r : Record) : Except Fault Place :=
  if r.isSkipped then r.value ""
  else do
    let key ← l.text.mapError .malformed
    r.value key

/-! ### A bracket closes -/

/-- A row closes. -/
def Row.close : Row → Except Fault Around
  | .scenario s => do
    let scenario ← s.draft.ofRow
    return s.finish scenario
  | .operations s done =>
    .ok { s with draft := { s.draft with operations := some done.reverse } }.resume
  | .operation _ none => .error (.mistyped (.missing "op"))
  | .operation o (some (kind, values)) => do
    let operation ← Values.operation values.reverse kind
    return o.finish operation
  | .nested i outer => .ok (i.resume outer .array)

/-- A record closes. -/
def Record.close : Record → Except Fault Around
  | .document done => .ok (.nothing done)
  | .scenario s => do
    let scenario ← s.draft.ofRecord
    return s.finish scenario
  | .operation _ none _ => .error (.mistyped (.missing "op"))
  | .operation o (some kind) members => do
    let operation ← Members.operation members.reverse kind
    return o.finish operation
  | .nested i outer => .ok (i.resume outer .object)

end LinearMemory.Fixture
