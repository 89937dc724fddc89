import LinearMemory.Memory.Basic

/-!
# The journal of a memory

Growth, accepted writes and rejected writes leave an event behind, nothing else does. An event has a
wording, and its level in front of it makes a line of the journal. The events alone, without the
values written, are enough to tell the size, the logical length and the recorded lengths of a
memory: `Ledger.after` keeps these three up to date, event by event.
-/

namespace LinearMemory.Memory

/-! ### The wording of events -/

namespace Event

/-- How much an event matters to its reader. -/
inductive Level
  | error
  | debug
  | trace
  deriving DecidableEq

/-- The name of a level. -/
def Level.name : Level → String
  | .error => "ERROR"
  | .debug => "DEBUG"
  | .trace => "TRACE"

/-- The level of an event. -/
def level : Event → Level
  | .growth .. => .debug
  | .rejection .. => .error
  | .acceptance .. => .trace

/-- The wording of an event. -/
def text : Event → String
  | .growth before after => "mem.resize " ++ toString before ++ " => " ++ toString after
  | .rejection size available =>
    "mem.set size=" ++ toString size ++ " exceeds mem size=" ++ toString available
  | .acceptance offset size valueLength =>
    "mem.set offset=" ++ toString offset ++ " size=" ++ toString size ++ " val.len=" ++
      toString valueLength

/-- An event as a line: its level, then its wording. -/
def line (e : Event) : String :=
  e.level.name ++ " " ++ e.text

end Event

/-! ### Reading a journal -/

/-- What a journal tells about a memory: all but the bytes. -/
structure Ledger where
  /-- The length of the store. -/
  size : Nat
  /-- The logical length. -/
  length : UInt64
  /-- The recorded lengths. -/
  index : Std.ExtTreeMap UInt64 Nat

namespace Ledger

/-- The ledger of an untouched memory. -/
def empty : Ledger := ⟨0, 0, ∅⟩

/-- The ledger after one more event. Growth to the capacity or beyond does not take place, and a
rejection changes nothing. -/
def after (ledger : Ledger) : Event → Ledger
  | .growth _ size =>
    if size.toNat < capacity then { ledger with size := size.toNat } else ledger
  | .rejection .. => ledger
  | .acceptance offset size valueLength =>
    if size = 0 then
      { ledger with length := ledger.length + 1, index := ledger.index.insert offset 0 }
    else
      { ledger with
        length := ledger.length + size, index := ledger.index.insert offset valueLength }

/-- The ledger that a journal tells of, from an untouched memory on. -/
def ofEvents (events : List Event) : Ledger :=
  events.foldl after empty

end Ledger

/-- What a journal could tell about this memory. -/
def ledger (m : Memory) : Ledger :=
  ⟨m.store.size, m.length, m.index⟩

end LinearMemory.Memory
