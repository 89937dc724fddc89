import LinearMemory.Error

/-!
# Replaying a scenario

The operations of a scenario are carried out in order on a fresh memory, and every result is held
against what the scenario expects of it. The replay ends at the first operation that fails, for one
of four reasons: a text that is not hex, a rejected write, a result that is not the expected one, or
a fatal stop. Within one operation they are looked for in the order in which they could arise: a
value is decoded before it is written, an expected value before it is compared.
-/

namespace LinearMemory

/-- **Why a replay ends early.** -/
inductive Failure
  /-- An operation fails. -/
  | error (cause : Error)
  /-- An operation cannot go on. -/
  | fatal (cause : Memory.Fatal)
  deriving DecidableEq

namespace Scenario

/-- The bytes that a text of the scenario spells. -/
def decode (s : String) : Except Failure (List UInt8) :=
  (Hex.decode s).mapError fun fault => .error (.hex fault)

/-- The value that is expected to be read, if any. -/
def decodeExpected : Option String → Except Failure (Option (List UInt8))
  | none => .ok none
  | some s => (decode s).map some

/-- The outcome of a write that may be rejected. -/
def accepted {α : Type} (outcome : Except Memory.Rejection α) : Except Failure α :=
  outcome.mapError fun rejection => .error (.rejected rejection)

/-- Hold a finding against what is expected. -/
def check (step : Nat) (aspect : Aspect) (got want : Finding) : Except Failure Unit :=
  if got = want then .ok () else .error (.error (.unexpected ⟨step, aspect, got, want⟩))

/-- Carry out one operation, the `step`-th of its scenario. -/
def perform (step : Nat) (m : Memory) : Operation → Except Failure Memory
  | .resize size => (m.resize size).mapError .fatal
  | .write offset size value => do
    let bytes ← decode value
    accepted (m.tryWrite offset.toUInt64 size bytes)
  | .append value expect => do
    let bytes ← decode value
    let (offset, next) ← accepted (m.tryAppend bytes)
    check step .append (.number offset.toNat) (.number expect.toNat)
    return next
  | .read offset expect => do
    let want ← decodeExpected expect
    check step .read (.value (m.read? offset.toUInt64)) (.value want)
    return m
  | .view offset expect => do
    let want ← decodeExpected expect
    check step .view (.value (m.view? offset.toUInt64)) (.value want)
    return m
  | .normalize offset expect => do
    let position := m.normalize offset.toUInt64.toUInt32
    check step .normalize (.number position.toNat) (.number expect.toNat)
    return m

/-- Carry out operations in order, the first of them being the `step`-th. -/
def performAll (step : Nat) (m : Memory) : List Operation → Except Failure Memory
  | [] => .ok m
  | operation :: rest => do
    let next ← perform step m operation
    performAll (step + 1) next rest

/-- **The memory that a scenario ends with**, if all its expectations are met. -/
def replay (s : Scenario) : Except Failure Memory := do
  let m ← performAll 0 .empty s.operations
  let last := s.operations.length
  check last .length (.number m.length.toNat) (.number s.length.toNat)
  check last .size (.number m.size) (.number s.size.toNat)
  return m

end Scenario

end LinearMemory
