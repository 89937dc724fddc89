import LinearMemory.Memory.Dump
import LinearMemory.Memory.Journal

/-!
# Calls on a memory

Every operation on a memory as a value, so that a run of operations is a list and statements about
all runs are inductions on it. `Call.perform` carries one call out: the memory after it, what it
answers, and the events it leaves in the journal, which are those that the operation tells of. A
call that is rejected or stops fatally leaves the memory as it was.
-/

namespace LinearMemory.Memory

/-- **An operation on a memory.** -/
inductive Call
  /-- Grow the store. -/
  | resize (size : UInt64)
  /-- Write, a rejection being fatal. -/
  | write (offset size : UInt64) (value : List UInt8)
  /-- Write, or answer with a rejection. -/
  | tryWrite (offset size : UInt64) (value : List UInt8)
  /-- Append, a rejection being fatal. -/
  | append (value : List UInt8)
  /-- Append, or answer with a rejection. -/
  | tryAppend (value : List UInt8)
  /-- Ask what an offset means, from its low half. -/
  | normalize (offset : UInt64)
  /-- Read the value at an offset. -/
  | read (offset : UInt64)
  /-- Look at the value at an offset where it stands. -/
  | view (offset : UInt64)
  /-- Ask for the length recorded at an offset. -/
  | written (offset : UInt64)
  /-- Ask whether no write was accepted. -/
  | isEmpty
  /-- Look at a part of the store, from its start and to its end unless told otherwise. -/
  | bytes (start stop : Option UInt64)
  /-- Ask for the dump. -/
  | dump
  deriving DecidableEq

/-- **The answer to a call.** -/
inductive Reply
  /-- The call was carried out and has nothing to tell. -/
  | done
  /-- An offset, or what an offset means. -/
  | position (offset : UInt64)
  /-- Bytes, if there are any to show. -/
  | value (bytes : Option (List UInt8))
  /-- A recorded length, if there is one. -/
  | recorded (length : Option Nat)
  /-- Yes or no. -/
  | flag (answer : Bool)
  /-- A text. -/
  | text (lines : String)
  /-- The call was rejected. -/
  | rejected (rejection : Rejection)
  /-- The call stopped fatally. -/
  | stopped (cause : Fatal)
  deriving DecidableEq

/-- What a call leaves behind. -/
structure Outcome where
  /-- The memory after the call. -/
  memory : Memory
  /-- The answer. -/
  reply : Reply
  /-- The events it left in the journal, in order. -/
  events : List Event

namespace Told

variable {α ε : Type} {a : α} {e : ε}

/-- **The outcome of an operation that may be refused**: what it results in means a memory and an
answer, a refusal means an answer and leaves the memory as it was. What was told is passed on. -/
@[inline]
def outcome (told : Told (Except ε α)) (m : Memory) (done : α → Memory × Reply)
    (refused : ε → Reply) : Outcome :=
  match told.result with
  | .ok a => ⟨(done a).1, (done a).2, told.events⟩
  | .error e => ⟨m, refused e, told.events⟩

variable {told : Told (Except ε α)} (m : Memory) (done : α → Memory × Reply) (refused : ε → Reply)

@[simp] theorem outcome_of_ok (h : told.result = .ok a) :
    told.outcome m done refused = ⟨(done a).1, (done a).2, told.events⟩ := by
  rw [outcome, h]

@[simp] theorem outcome_of_error (h : told.result = .error e) :
    told.outcome m done refused = ⟨m, refused e, told.events⟩ := by
  rw [outcome, h]

end Told

namespace Call

/-- Carry out one call. -/
def perform (m : Memory) : Call → Outcome
  | .resize size => (m.resizing size).outcome m (fun next => (next, .done)) .stopped
  | .write offset size value =>
    (m.writing offset size value).insisting.outcome m (fun next => (next, .done)) .stopped
  | .tryWrite offset size value =>
    (m.writing offset size value).outcome m (fun next => (next, .done)) .rejected
  | .append value =>
    (m.appending value).insisting.outcome m (fun went => (went.2, .position went.1)) .stopped
  | .tryAppend value =>
    (m.appending value).outcome m (fun went => (went.2, .position went.1)) .rejected
  | .normalize offset => ⟨m, .position (m.normalize offset.toUInt32).toUInt64, []⟩
  | .read offset => ⟨m, .value (m.read? offset), []⟩
  | .view offset => ⟨m, .value (m.view? offset), []⟩
  | .written offset => ⟨m, .recorded (m.written? offset), []⟩
  | .isEmpty => ⟨m, .flag m.isEmpty, []⟩
  | .bytes start stop =>
    let first := (start.map UInt64.toNat).getD 0
    let last := (stop.map UInt64.toNat).getD m.store.size
    ⟨m, .value (some (m.bytes first last)), []⟩
  | .dump => ⟨m, .text m.dump, []⟩

/-- The memory after a run of calls. -/
def run (m : Memory) (calls : List Call) : Memory :=
  calls.foldl (fun m call => (perform m call).memory) m

end Call

end LinearMemory.Memory
