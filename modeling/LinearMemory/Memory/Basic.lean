import Std.Data.ExtTreeMap

/-!
# The memory of a machine

A memory is a store of bytes that only grows, a logical length, and an index that remembers how
many bytes the latest write at each offset brought. A value is read back by its offset alone.

Three things about it are easy to get wrong, and the definitions below keep them apart:

* a write is accepted on its **size alone**: the size is held against the whole store, not against
  what is left behind the offset. Bytes that would land past the end are dropped;
* the index is kept under the **whole offset** of the write, 64 bits of it, while a read looks at
  the low 32 bits and takes them as a signed number, negative ones counting from the end;
* the **logical length** advances by the size of each accepted write, and by one for an empty
  write. It is not tied to the store.

The store is always shorter than `Memory.capacity` bytes. That is an invariant of the type, so the
arithmetic on offsets, done in words, has the value it would have in unbounded numbers.

Growth and writes tell what happens to them. The operations that do so, `Memory.resizing`,
`Memory.writing` and `Memory.appending`, give a `Memory.Told`: what they result in, and the events
on the way, from one look at the sizes. The operations without an account are the first half of
these.
-/

namespace LinearMemory

/-- No store reaches this many bytes. -/
def Memory.capacity : Nat := Nat.pow 2 63

/-- **A linear memory.** -/
@[ext]
structure Memory where
  /-- The bytes of the memory. -/
  store : Array UInt8
  /-- The logical length: where the next append goes. -/
  length : UInt64
  /-- How many bytes the latest write at an offset brought. -/
  index : Std.ExtTreeMap UInt64 Nat
  /-- The store stays below the capacity. -/
  size_lt : store.size < Memory.capacity

namespace Memory

/-- Why an operation was refused without touching the memory. -/
structure Rejection where
  /-- The size that was asked for. -/
  size : UInt64
  /-- The length of the store at that time. -/
  available : Nat
  deriving DecidableEq

/-- Why an operation could not go on at all. -/
inductive Fatal
  /-- The store would have to reach the capacity. -/
  | capacityOverflow
  /-- A write that must succeed was rejected. -/
  | rejected (rejection : Rejection)
  deriving DecidableEq

/-- The wording of a rejection, the same whatever was asked for. -/
def Rejection.message (_ : Rejection) : String :=
  "invalid memory: memory empty"

/-- The wording of a fatal stop. -/
def Fatal.message : Fatal → String
  | .capacityOverflow => "capacity overflow"
  | .rejected rejection => rejection.message

/-- **What a memory tells about an operation.** -/
inductive Event
  /-- The store is shorter than what was asked for. -/
  | growth (before : Nat) (after : UInt64)
  /-- A write was rejected because its size exceeds the store. -/
  | rejection (size : UInt64) (available : Nat)
  /-- A write was accepted. -/
  | acceptance (offset size : UInt64) (valueLength : Nat)
  deriving DecidableEq

/-! ### Results that come with an account -/

/-- **What an operation results in, and what it tells.** -/
structure Told (α : Type) where
  /-- The result. -/
  result : α
  /-- What was told on the way to it, in order. -/
  events : List Event

namespace Told

variable {α β : Type}

/-- The same account of another result. -/
@[inline]
def map (f : α → β) (told : Told α) : Told β :=
  ⟨f told.result, told.events⟩

@[simp] theorem result_map (f : α → β) (told : Told α) :
    (told.map f).result = f told.result := rfl

@[simp] theorem events_map (f : α → β) (told : Told α) : (told.map f).events = told.events := rfl

/-- The same for a caller that takes a rejection for a fatal stop. -/
@[inline]
def insisting (told : Told (Except Rejection α)) : Told (Except Fatal α) :=
  told.map fun result => result.mapError .rejected

end Told

/-! ### The store -/

/-- The memory that nothing was done to. -/
def empty : Memory :=
  ⟨#[], 0, ∅, by decide⟩

/-- The length of the store. -/
def size (m : Memory) : Nat :=
  m.store.size

/-- Whether the logical length is zero, as it is until a write is accepted. -/
def isEmpty (m : Memory) : Bool :=
  m.length == 0

/-- The length that the latest write at exactly this offset brought. -/
def written? (m : Memory) (offset : UInt64) : Option Nat :=
  m.index[offset]?

/-- The bytes of the store from one position up to another, as far as there are any. -/
def bytes (m : Memory) (start stop : Nat) : List UInt8 :=
  (m.store.extract start stop).toList

/-- Grow the store to at least `size` bytes, the new ones zero. It never shrinks. Growth is told of
before it turns out whether there is room for it. -/
@[inline]
def resizing (m : Memory) (size : UInt64) : Told (Except Fatal Memory) :=
  if m.store.size < size.toNat then
    { events := [.growth m.store.size size]
      result :=
        if h : size.toNat < capacity then
          .ok { m with
            store := m.store ++ Array.replicate (size.toNat - m.store.size) 0
            size_lt := by
              have := m.size_lt
              simp only [Array.size_append, Array.size_replicate]
              omega }
        else .error .capacityOverflow }
  else ⟨.ok m, []⟩

/-- Growth without its account. -/
@[inline]
def resize (m : Memory) (size : UInt64) : Except Fatal Memory :=
  (m.resizing size).result

/-! ### Writing -/

/-- The sum of two words, or the greatest word if the sum does not fit. -/
def addSaturating (a b : UInt64) : UInt64 :=
  if a + b < a then 0xffffffffffffffff else a + b

/-- A range of positions, the end excluded. -/
structure Extent where
  /-- The first position. -/
  start : Nat
  /-- The position behind the last one. -/
  stop : Nat
  deriving DecidableEq

/-- The part of the store that a write of this size at this offset may cover. Both ends are found
in words and capped at the end of the store. -/
def window (m : Memory) (offset size : UInt64) : Extent :=
  let last := UInt64.ofNat m.store.size
  ⟨(min offset last).toNat, (min (addSaturating offset size) last).toNat⟩

/-- Put values into an array one behind the other; what reaches past its end is dropped. -/
def overwrite (store : Array UInt8) (start : Nat) : List UInt8 → Array UInt8
  | [] => store
  | b :: rest => overwrite (store.setIfInBounds start b) (start + 1) rest

@[simp] theorem size_overwrite (store : Array UInt8) (start : Nat) (value : List UInt8) :
    (overwrite store start value).size = store.size := by
  induction value generalizing store start with
  | nil => rfl
  | cons b rest ih => rw [overwrite, ih, Array.size_setIfInBounds]

/-- Write up to `size` bytes of a value at an offset, or reject the size. A write of positive size
records the length of the value whatever part of it was kept; an empty one records zero and
advances the logical length by one. -/
@[inline]
def writing (m : Memory) (offset size : UInt64) (value : List UInt8) :
    Told (Except Rejection Memory) :=
  if m.store.size < size.toNat then
    ⟨.error ⟨size, m.store.size⟩, [.rejection size m.store.size]⟩
  else
    { events := [.acceptance offset size value.length]
      result :=
        if size = 0 then
          .ok { m with length := m.length + 1, index := m.index.insert offset 0 }
        else
          let extent := m.window offset size
          .ok { m with
            store := overwrite m.store extent.start (value.take (extent.stop - extent.start))
            length := m.length + size
            index := m.index.insert offset value.length
            size_lt := by rw [size_overwrite]; exact m.size_lt } }

/-- Write a whole value at the logical length and answer where it went. -/
@[inline]
def appending (m : Memory) (value : List UInt8) : Told (Except Rejection (UInt64 × Memory)) :=
  let offset := m.length
  (m.writing offset (UInt64.ofNat value.length) value).map fun result =>
    result.map fun next => (offset, next)

/-- A write without its account. -/
@[inline]
def tryWrite (m : Memory) (offset size : UInt64) (value : List UInt8) : Except Rejection Memory :=
  (m.writing offset size value).result

/-- An append without its account. -/
@[inline]
def tryAppend (m : Memory) (value : List UInt8) : Except Rejection (UInt64 × Memory) :=
  (m.appending value).result

/-- An append without its account, for a caller that takes a rejection for a fatal stop. -/
@[inline]
def append (m : Memory) (value : List UInt8) : Except Fatal (UInt64 × Memory) :=
  (m.appending value).insisting.result

/-! ### Reading -/

/-- The position that a 32 bit offset means: from `2 ^ 31` on it is negative and counts back from
the end of the store, in 32 bit arithmetic. -/
def normalize (m : Memory) (offset : UInt32) : UInt32 :=
  if offset < 0x80000000 then offset else UInt32.ofNat m.store.size + offset

/-- Where the value read at an offset stands in the store: at the normalized low half of the
offset, and as long as the latest write there. There is none if no bytes were recorded, or if they
reach past the end of the store. -/
def extent? (m : Memory) (offset : UInt64) : Option Extent :=
  let start := (m.normalize offset.toUInt32).toUInt64
  match m.written? start with
  | some n =>
    if 0 < n ∧ start.toNat + n ≤ m.store.size then some ⟨start.toNat, start.toNat + n⟩ else none
  | none => none

/-- The value at an offset, looked at where it stands in the store. -/
def view? (m : Memory) (offset : UInt64) : Option (List UInt8) := do
  let extent ← m.extent? offset
  return m.bytes extent.start extent.stop

/-- **The value read at an offset**, if there is one. -/
def read? (m : Memory) (offset : UInt64) : Option (List UInt8) :=
  m.view? offset

end Memory

end LinearMemory
