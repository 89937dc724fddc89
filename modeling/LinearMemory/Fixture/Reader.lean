import LinearMemory.Fixture.Transition

/-!
# Reading a fixture document

A document is read one octet at a time and from left to right, so the fault that is reported is the
first one that the octets show. `State.next` takes one octet, `State.finish` judges what is left
open at the end, and `Fixture.load` does the one after the other.

A number has no closing mark: the octet behind it completes it, and is then read for itself.
-/

namespace LinearMemory.Fixture

open Json

/-- **What may come next** in a document. -/
inductive State
  /-- A value. -/
  | value (p : Place)
  /-- The first element of a row, or its bracket. -/
  | firstElement (r : Row) (p : Place)
  /-- An element of a row behind a comma. -/
  | nextElement (p : Place)
  /-- The first key of a record, or its bracket. -/
  | firstKey (r : Record)
  /-- A key of a record behind a comma. -/
  | nextKey (r : Record)
  /-- The rest of a key. -/
  | key (r : Record) (l : Literal)
  /-- The colon behind a key. -/
  | colon (p : Place)
  /-- The rest of a text. -/
  | literal (p : Place) (l : Literal)
  /-- The rest of a number, or what follows it. -/
  | numeral (p : Place) (n : Numeral)
  /-- The rest of a word: an octet, and those behind it. -/
  | word (p : Place) (v : Value) (b : UInt8) (rest : List UInt8)
  /-- What follows a value: a comma, a bracket, or the end. -/
  | after (a : Around)
  /-- Nothing at all: the comma before it stands in a row that is full. -/
  | surplus

namespace State

/-- At the start of a document. -/
def start : State := .value .document

/-- A text that is no JSON. -/
def malformed {α : Type} (cause : Malformed) : Except Fault α :=
  .error (.malformed cause)

/-- A text that ends too early. -/
def truncated {α : Type} (inside : Truncated) : Except Fault α :=
  .error (.truncated inside)

/-- The first octet of a value. -/
def begin (p : Place) (b : UInt8) : Except Fault State :=
  if b = octet '"' then .ok (.literal p .start)
  else if b = octet '[' then do
    let (r, first) ← p.openRow
    return .firstElement r first
  else if b = octet '\x7b' then do
    let r ← p.openRecord
    return .firstKey r
  else if b = octet 't' then .ok (.word p (.boolean true) (octet 'r') [octet 'u', octet 'e'])
  else if b = octet 'f' then
    .ok (.word p (.boolean false) (octet 'a') [octet 'l', octet 's', octet 'e'])
  else if b = octet 'n' then .ok (.word p .null (octet 'u') [octet 'l', octet 'l'])
  else match Numeral.start? b with
    | some n => .ok (.numeral p n)
    | none => malformed .valueExpected

/-- The octet behind a value. -/
def follow (a : Around) (b : UInt8) : Except Fault State :=
  if isBlank b then .ok (.after a)
  else match a with
    | .nothing _ => malformed .trailingCharacters
    | .row r =>
      if b = octet ']' then do
        let a ← r.close
        return .after a
      else match r.next? with
        | some p => if b = octet ',' then .ok (.nextElement p) else malformed .elementEndExpected
        | none => if b = octet ',' then .ok .surplus else malformed .trailingCharacters
    | .record r =>
      if b = octet '\x7d' then do
        let a ← r.close
        return .after a
      else if b = octet ',' then .ok (.nextKey r)
      else malformed .memberEndExpected

/-- **Read one octet.** -/
def next (s : State) (b : UInt8) : Except Fault State :=
  match s with
  | .value p => if isBlank b then .ok s else begin p b
  | .firstElement r p =>
    if isBlank b then .ok s
    else if b = octet ']' then do
      let a ← r.close
      return .after a
    else begin p b
  | .nextElement p =>
    if isBlank b then .ok s
    else if b = octet ']' ∧ ¬ p.isSkipped then malformed .trailingComma
    else begin p b
  | .firstKey r =>
    if isBlank b then .ok s
    else if b = octet '"' then .ok (.key r .start)
    else if b = octet '\x7d' then do
      let a ← r.close
      return .after a
    else malformed .keyExpected
  | .nextKey r =>
    if isBlank b then .ok s
    else if b = octet '"' then .ok (.key r .start)
    else if b = octet '\x7d' ∧ ¬ r.isSkipped then malformed .trailingComma
    else malformed .keyExpected
  | .key r l =>
    if l.isClosedBy b then do
      let p ← r.literal l
      return .colon p
    else do
      let l ← (if r.isSkipped then l.skip b else l.next b).mapError .malformed
      return .key r l
  | .colon p =>
    if isBlank b then .ok s
    else if b = octet ':' then .ok (.value p)
    else malformed .colonExpected
  | .literal p l =>
    if l.isClosedBy b then do
      let a ← p.literal l
      return .after a
    else do
      let l ← (if p.isSkipped then l.skip b else l.next b).mapError .malformed
      return .literal p l
  | .numeral p n =>
    match n.next b with
    | .more n => .ok (.numeral p n)
    | .bad => malformed .badNumber
    | .over => do
      let a ← p.numeral n
      follow a b
  | .word p v c rest =>
    if b = c then
      match rest with
      | c :: rest => .ok (.word p v c rest)
      | [] => do
        let a ← p.scalar v
        return .after a
    else malformed .wordExpected
  | .after a => follow a b
  | .surplus =>
    if isBlank b then .ok s
    else if b = octet ']' then malformed .trailingComma
    else malformed .trailingCharacters

/-- The end of the text behind a value. -/
def finishAfter : Around → Except Fault Fixture
  | .nothing fixture => .ok fixture
  | .row _ => truncated .array
  | .record _ => truncated .object

/-- **The end of the text.** -/
def finish : State → Except Fault Fixture
  | .value _ | .nextElement _ | .word .. => truncated .value
  | .firstElement .. => truncated .array
  | .firstKey _ | .colon _ => truncated .object
  | .nextKey r => truncated (if r.isSkipped then .object else .value)
  | .key .. | .literal .. => truncated .text
  | .numeral p n =>
    if n.stage.isComplete then do
      let a ← p.numeral n
      finishAfter a
    else if p.isSkipped then malformed .badNumber
    else truncated .value
  | .after a => finishAfter a
  | .surplus => malformed .trailingCharacters

/-- Read octets one after the other. -/
def run (s : State) (octets : List UInt8) : Except Fault State :=
  octets.foldlM next s

@[simp] theorem run_nil (s : State) : s.run [] = .ok s := rfl

@[simp] theorem run_cons (s : State) (b : UInt8) (rest : List UInt8) :
    s.run (b :: rest) = s.next b >>= fun t => t.run rest := by
  rw [run, List.foldlM_cons]
  rfl

/-- **Reading is done piece by piece**: what stands behind a piece of text is read from where the
piece ended. -/
@[simp] theorem run_append (s : State) (first second : List UInt8) :
    s.run (first ++ second) = s.run first >>= fun t => t.run second := by
  rw [run, List.foldlM_append]
  rfl

end State

/-- **The fixture of a document**, or the first fault of it. -/
def load (octets : List UInt8) : Except Fault Fixture := do
  let s ← State.start.run octets
  s.finish

end LinearMemory.Fixture
