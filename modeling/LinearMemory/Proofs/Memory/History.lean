import LinearMemory.Proofs.Memory.Run

/-!
# The history of a memory

A memory is what its history says it is. The history of a run is read off the calls alone, without
a memory at hand: a call that grows raises the size, a call that writes is kept with the size of
that moment if its own size is within it, and nothing else leaves a trace. This is the second
description of a memory, and the simple one: it has a list of accepted writes where the memory has
a store, a counter and an index, and it forgets nothing.

* `Memory.History.byte?` and `Memory.History.recorded?` look up the **latest** accepted write that
  covers a position, or that was made at an offset.
* `Memory.Tells` says that a history tells what a memory is, and `Memory.Tells.run` that it still
  does after any run of calls.
* `Memory.run_prescribed` is the law for a run from the empty memory.

The lengths of the two sides differ in kind: a history adds up advances in unbounded numbers, a
memory in words. The two agree as words on every run, and as numbers as long as the sum is a word.
-/

namespace LinearMemory.Memory

/-- **What a run of calls amounts to.** -/
structure History where
  /-- The greatest size that the store grew to. -/
  size : Nat
  /-- The sum of the advances, in unbounded numbers. -/
  length : Nat
  /-- The accepted writes, the latest first. -/
  entries : List Entry

namespace History

/-- The history after a request to grow, which takes place below the capacity. -/
def grow (h : History) (size : UInt64) : History :=
  if size.toNat < capacity then { h with size := max h.size size.toNat } else h

/-- The history after a request to write, which is accepted on its size alone. -/
def note (h : History) (w : Write) : History :=
  if w.size.toNat ≤ h.size then ⟨h.size, h.length + w.advance, ⟨w, h.size⟩ :: h.entries⟩ else h

/-- The history after one more call. An append is a write of the whole value at the logical
length. -/
def after (h : History) : Call → History
  | .resize size => h.grow size
  | .write offset size value | .tryWrite offset size value => h.note ⟨offset, size, value⟩
  | .append value | .tryAppend value =>
    h.note ⟨UInt64.ofNat h.length, UInt64.ofNat value.length, value⟩
  | _ => h

/-- The history of a run that starts at a memory with nothing known of what came before. -/
def since (m : Memory) (calls : List Call) : History :=
  calls.foldl after ⟨m.size, m.length.toNat, []⟩

/-- **The history of a run from the empty memory**: a function of the calls alone. -/
def of (calls : List Call) : History :=
  calls.foldl after ⟨0, 0, []⟩

/-- The byte that the latest accepted write covering a position put there. -/
def byte? (h : History) (i : Nat) : Option UInt8 :=
  h.entries.findSome? (·.byte? i)

/-- The length that the latest accepted write at an offset recorded. -/
def recorded? (h : History) (offset : UInt64) : Option Nat :=
  h.entries.findSome? (·.recordedAt? offset)

/-! ### How a history grows -/

variable {h : History}

@[simp] theorem grow_of_lt {size : UInt64} (hs : size.toNat < capacity) :
    h.grow size = { h with size := max h.size size.toNat } :=
  if_pos hs

@[simp] theorem grow_of_le {size : UInt64} (hs : capacity ≤ size.toNat) : h.grow size = h :=
  if_neg (Nat.not_lt_of_le hs)

@[simp] theorem note_of_le {w : Write} (hw : w.size.toNat ≤ h.size) :
    h.note w = ⟨h.size, h.length + w.advance, ⟨w, h.size⟩ :: h.entries⟩ :=
  if_pos hw

@[simp] theorem note_of_lt {w : Write} (hw : h.size < w.size.toNat) : h.note w = h :=
  if_neg (Nat.not_le_of_lt hw)

theorem after_of_growth? {call : Call} {size : UInt64} (hg : call.growth? = some size) :
    h.after call = h.grow size := by
  cases call with
  | resize size' =>
    cases hg
    rfl
  | _ => cases hg

theorem after_of_write? {call : Call} {w : Write}
    (hw : call.write? (UInt64.ofNat h.length) = some w) : h.after call = h.note w := by
  cases call with
  | write offset size value | tryWrite offset size value =>
    cases hw
    rfl
  | append value | tryAppend value =>
    cases hw
    rfl
  | _ => cases hw

theorem after_eq_self {call : Call} {length : UInt64} (hg : call.growth? = none)
    (hw : call.write? length = none) : h.after call = h := by
  cases call with
  | resize size => cases hg
  | write | tryWrite | append | tryAppend => cases hw
  | _ => rfl

/-! ### Looking up -/

variable {next : History} {e : Entry}

theorem byte?_of_cons (hcons : next.entries = e :: h.entries) (i : Nat) :
    next.byte? i = (e.byte? i).or (h.byte? i) := by
  rw [byte?, hcons, List.findSome?_cons]
  cases e.byte? i <;> rfl

theorem recorded?_of_cons (hcons : next.entries = e :: h.entries) (offset : UInt64) :
    next.recorded? offset = (e.recordedAt? offset).or (h.recorded? offset) := by
  rw [recorded?, hcons, List.findSome?_cons]
  cases e.recordedAt? offset <;> rfl

end History

/-! ### The history tells what the memory is -/

/-- **A history tells what a memory is**, given the memory at its start: all that can be seen of
the one is looked up in the other, and where the history is silent in the memory at the start. -/
structure Tells (start : Memory) (h : History) (m : Memory) : Prop where
  /-- The store has the size that the history tells. -/
  size : m.size = h.size
  /-- The logical length is the one that the history tells, as a word. -/
  length : m.length = UInt64.ofNat h.length
  /-- Each byte is the one put there last, else the one at the start. -/
  byte : ∀ i, m.byteAt i = (h.byte? i).getD (start.byteAt i)
  /-- Each recorded length is the one recorded last, else the one at the start. -/
  written : ∀ offset, m.written? offset = (h.recorded? offset).or (start.written? offset)
  /-- What the logical length gained are the advances of the accepted writes. -/
  advances : h.length = start.length.toNat + (h.entries.map (·.advance)).sum

namespace Tells

variable {start m next : Memory} {h : History}

/-- At the start nothing is told yet. -/
theorem refl (m : Memory) : Tells m ⟨m.size, m.length.toNat, []⟩ m where
  size := rfl
  length := UInt64.ofNat_toNat.symm
  byte _ := rfl
  written _ := rfl
  advances := rfl

/-- Growth is told by the size alone. -/
theorem grow (ht : Tells start h m) {size : UInt64} (hs : size.toNat < capacity)
    (hok : m.resize size = .ok next) : Tells start (h.grow size) next := by
  rw [History.grow_of_lt hs]
  refine ⟨?_, ?_, ?_, ?_, ht.advances⟩
  · rw [size_of_resize hok, ht.size]
  · rw [length_of_resize hok, ht.length]
  · -- The bytes that come in are zeros, as they counted before.
    intro i
    rw [byteAt_of_resize hok, ht.byte i]
    rfl
  · intro offset
    rw [written?_of_resize hok, ht.written offset]
    rfl

/-- An accepted write is told: what it puts down hides what was told of these positions, and of
this offset, before. -/
theorem note (ht : Tells start h m) {w : Write} (hw : w.size.toNat ≤ h.size)
    (hok : m.put w = .ok next) : Tells start (h.note w) next := by
  have hentries : (h.note w).entries = ⟨w, m.size⟩ :: h.entries := by
    rw [History.note_of_le hw, ht.size]
  refine ⟨?_, ?_, ?_, ?_, ?_⟩
  · rw [size_of_put hok, ht.size, History.note_of_le hw]
  · rw [length_of_put hok, ht.length, History.note_of_le hw, UInt64.ofNat_add]
  · -- The new entry is asked first, as the new bytes stand over the old ones.
    intro i
    rw [byteAt_of_put hok, ht.byte i, History.byte?_of_cons hentries, Option.getD_or]
  · intro offset
    rw [written?_of_put hok, ht.written offset, History.recorded?_of_cons hentries,
      Option.or_assoc]
  · rw [hentries, List.map_cons, List.sum_cons, History.note_of_le hw, ht.advances]
    exact (Nat.add_right_comm ..).trans (Nat.add_assoc ..)

/-- **One call**: a history that tells what a memory is still does after any call, and gains the
write that the call makes, if it makes one. -/
theorem step (ht : Tells start h m) (call : Call) :
    Tells start (h.after call) (Call.perform m call).memory ∧
      (h.after call).entries = (Call.accepted? m call).toList ++ h.entries := by
  cases hg : call.growth? with
  | some size =>
    rw [History.after_of_growth? hg, Call.accepted?_eq_none (Call.write?_eq_none_of_growth? hg)]
    rcases Call.perform_growth hg with ⟨hlt, hok⟩ | ⟨hle, hkeep⟩
    · exact ⟨ht.grow hlt hok, by rw [History.grow_of_lt hlt]; rfl⟩
    · rw [History.grow_of_le hle, hkeep]
      exact ⟨ht, rfl⟩
  | none =>
    cases hw : call.write? m.length with
    | some w =>
      -- The lengths agree as words, so both sides take an append for the same write.
      rw [History.after_of_write? (ht.length ▸ hw)]
      rcases Call.perform_write hw with ⟨hle, hok, hacc⟩ | ⟨hlt, hkeep, hacc⟩
      · -- The sizes agree too, so both sides accept the write or reject it.
        rw [hacc, ht.size]
        rw [ht.size] at hle
        exact ⟨ht.note hle hok, by rw [History.note_of_le hle]; rfl⟩
      · rw [History.note_of_lt (ht.size ▸ hlt), hkeep, hacc]
        exact ⟨ht, rfl⟩
    | none =>
      rw [History.after_eq_self hg hw, Call.memory_perform_eq_self hg hw,
        Call.accepted?_eq_none hw]
      exact ⟨ht, rfl⟩

/-- **Any run**: a history that tells what a memory is still does after any run of calls. -/
theorem run (ht : Tells start h m) (calls : List Call) :
    Tells start (calls.foldl History.after h) (Call.run m calls) := by
  induction calls generalizing h m with
  | nil => exact ht
  | cons call rest ih => exact ih (ht.step call).1

/-- The writes that a history gains in a run are the ones that the run accepts. -/
theorem entries_foldl (ht : Tells start h m) (calls : List Call) :
    (calls.foldl History.after h).entries = (Call.accepted m calls).reverse ++ h.entries := by
  induction calls generalizing h m with
  | nil => rfl
  | cons call rest ih =>
    obtain ⟨hnext, hentries⟩ := ht.step call
    rw [List.foldl_cons, ih hnext, hentries, Call.accepted_cons, List.reverse_append,
      List.append_assoc]
    cases Call.accepted? m call <;> rfl

end Tells

/-- The history of a run tells what the memory is after it. -/
theorem tells_since (m : Memory) (calls : List Call) :
    Tells m (History.since m calls) (Call.run m calls) :=
  (Tells.refl m).run calls

theorem entries_since (m : Memory) (calls : List Call) :
    (History.since m calls).entries = (Call.accepted m calls).reverse := by
  rw [History.since, (Tells.refl m).entries_foldl calls, List.append_nil]

/-! ### The law of a run from the empty memory -/

/-- The sizes that a run of calls asks the store to grow to. -/
def Call.growths (calls : List Call) : List Nat :=
  calls.filterMap fun call => call.growth?.map UInt64.toNat

@[simp]
theorem Call.growths_cons_of_some {call : Call} {size : UInt64} (hg : call.growth? = some size)
    (rest : List Call) : growths (call :: rest) = size.toNat :: growths rest := by
  simp only [growths, List.filterMap_cons, hg, Option.map_some]

@[simp]
theorem Call.growths_cons_of_none {call : Call} (hg : call.growth? = none) (rest : List Call) :
    growths (call :: rest) = growths rest := by
  simp only [growths, List.filterMap_cons, hg, Option.map_none]

@[simp] theorem Call.growths_append (before behind : List Call) :
    growths (before ++ behind) = growths before ++ growths behind :=
  List.filterMap_append ..

/-- The greatest size is one of those asked for, if any was, and none is greater. -/
theorem foldl_max_spec (sizes : List Nat) (start : Nat) :
    sizes.foldl max start ∈ start :: sizes ∧ ∀ n ∈ start :: sizes, n ≤ sizes.foldl max start :=
  List.max?_eq_some_iff.mp List.max?_cons'

/-- Below the capacity growth always takes place, so the size is the greatest one asked for. -/
theorem History.size_foldl_after (h : History) (calls : List Call)
    (hcap : ∀ n ∈ Call.growths calls, n < capacity) :
    (calls.foldl History.after h).size = (Call.growths calls).foldl max h.size := by
  induction calls generalizing h with
  | nil => rfl
  | cons call rest ih =>
    cases hg : call.growth? with
    | some size =>
      rw [Call.growths_cons_of_some hg] at hcap ⊢
      rw [List.foldl_cons, List.foldl_cons, History.after_of_growth? hg,
        History.grow_of_lt (hcap _ List.mem_cons_self)]
      exact ih _ fun n hn => hcap n (List.mem_cons_of_mem _ hn)
    | none =>
      -- A write may be accepted here or not, but neither way does it move the size.
      have hsize : (h.after call).size = h.size := by
        cases hw : call.write? (UInt64.ofNat h.length) with
        | some w =>
          rw [History.after_of_write? hw, History.note]
          split <;> rfl
        | none => rw [History.after_eq_self hg hw]
      rw [Call.growths_cons_of_none hg] at hcap ⊢
      rw [List.foldl_cons, ih _ hcap, hsize]

/-- **A memory is what its history prescribes.** After any run from the empty memory that asks for
no more than `2 ^ 31` bytes and whose advances add up to a word:

* the size is the greatest one asked for;
* each byte of the store is the one that the latest accepted write covering it put there, and zero
  if there was none;
* the length recorded at an offset is that of the latest accepted write at exactly this offset, and
  there is none if there was no such write;
* the logical length is the sum of the advances.

The history decides from the calls alone which writes are accepted and where an append goes. The
last clause says that it decides as the memory does: its entries are the writes that the answers
show as made, each with the length of the store of that time. -/
theorem run_prescribed (calls : List Call)
    (hgrowth : ∀ n ∈ Call.growths calls, n < 2 ^ 31)
    (hadvance : ((History.of calls).entries.map (·.advance)).sum < 2 ^ 64) :
    (Call.run .empty calls).size = (Call.growths calls).foldl max 0 ∧
      (∀ i, i < (Call.run .empty calls).size →
        (Call.run .empty calls).store[i]? = some (((History.of calls).byte? i).getD 0)) ∧
      (∀ offset, (Call.run .empty calls).written? offset = (History.of calls).recorded? offset) ∧
      (Call.run .empty calls).length.toNat =
        ((History.of calls).entries.map (·.advance)).sum ∧
      (History.of calls).entries = (Call.accepted .empty calls).reverse := by
  have ht : Tells .empty (History.of calls) (Call.run .empty calls) := tells_since .empty calls
  have hcap : ∀ n ∈ Call.growths calls, n < capacity := by
    intro n hn
    exact Nat.lt_trans (hgrowth n hn) (by decide)
  have hsum : (History.of calls).length = 0 + ((History.of calls).entries.map (·.advance)).sum :=
    ht.advances
  refine ⟨?_, ?_, ?_, ?_, entries_since .empty calls⟩
  · rw [ht.size]
    exact History.size_foldl_after _ calls hcap
  · intro i hi
    rw [getElem?_store hi, ht.byte i]
    rfl
  · intro offset
    rw [ht.written offset]
    exact Option.or_none
  · -- The memory adds up in words, and here this is the sum itself.
    rw [ht.length, UInt64.toNat_ofNat', hsum, Nat.zero_add, Nat.mod_eq_of_lt hadvance]

/-- A run with a write cut at the end of the store, growth behind it, an empty write at the same
offset, an append, a rejected write, and a write at the last offset there is. -/
def Call.mixedRun : List Call :=
  [.resize 4, .write 2 4 [1, 2, 3], .resize 6, .tryWrite 2 0 [9], .append [7], .tryWrite 0 9 [],
    .write 0xffffffffffffffff 2 [5], .read 2]

/-- The law at work: the byte cut off is not made good by the growth, the empty write hides the
record and not the bytes, and the last write leaves nothing but a record. -/
theorem run_prescribed_mixedRun :
    (∀ n ∈ Call.growths Call.mixedRun, n < 2 ^ 31) ∧
      ((History.of Call.mixedRun).entries.map (·.advance)).sum < 2 ^ 64 ∧
      (Call.run .empty Call.mixedRun).size = 6 ∧
      (Call.run .empty Call.mixedRun).store[3]? = some 2 ∧
      (Call.run .empty Call.mixedRun).store[4]? = some 0 ∧
      (Call.run .empty Call.mixedRun).written? 2 = some 0 ∧
      (Call.run .empty Call.mixedRun).written? 0xffffffffffffffff = some 1 ∧
      (Call.run .empty Call.mixedRun).length.toNat = 8 := by
  have hgrowth : ∀ n ∈ Call.growths Call.mixedRun, n < 2 ^ 31 := by decide
  have hadvance : ((History.of Call.mixedRun).entries.map (·.advance)).sum < 2 ^ 64 := by decide
  obtain ⟨hsize, hbyte, hwritten, hlength, -⟩ := run_prescribed Call.mixedRun hgrowth hadvance
  have hsix : (Call.run .empty Call.mixedRun).size = 6 := hsize.trans (by decide)
  refine ⟨hgrowth, hadvance, hsix, ?_, ?_, ?_, ?_, ?_⟩
  · rw [hbyte 3 (by rw [hsix]; decide)]
    decide
  · rw [hbyte 4 (by rw [hsix]; decide)]
    decide
  · rw [hwritten]
    decide
  · rw [hwritten]
    decide
  · rw [hlength]
    decide

end LinearMemory.Memory
